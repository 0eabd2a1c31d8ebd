import Mathlib.Data.List.AList
import Palisade.Transition
import Palisade.Core

/-! The session book of the lock service and its sweeper. Instants are nanoseconds of
the server's clock. The book is a hash map behind one mutex: every operation is one critical
section. It reads the clock inside, but for a heartbeat, which reads it just before: that
reading is taken as one step with the section. A sweep takes several sections, and the releases
it awaits in between take any time. -/
namespace Palisade.Server
open Transition

structure SessionEntry where
  clientId : String
  ttl : Duration
  lastSeen : Nat
  /-- Before this instant a heartbeat is refused. -/
  hbFloor : Nat
  /-- The locks bound to the session, key and owner token. -/
  locks : List (String × String)
  deriving DecidableEq

/-- `last_seen.elapsed() > ttl` -/
def SessionEntry.expired (entry : SessionEntry) (now : Nat) : Bool :=
  decide (entry.ttl.nanos < now - entry.lastSeen)

inductive HbResult where
  | ok
  | rateLimited
  | unknown
  deriving DecidableEq

abbrev SessionBook := AList fun _ : String => SessionEntry

namespace SessionBook

def register (book : SessionBook) (now : Nat) (token clientId : String) (ttl : Duration) : SessionBook :=
  book.insert token ⟨clientId, ttl, now, now, []⟩

def heartbeat (book : SessionBook) (now : Nat) (token : String) : HbResult × SessionBook :=
  match book.lookup token with
  | none => (.unknown, book)
  | some entry =>
    if now < entry.hbFloor then (.rateLimited, book)
    else (.ok, book.insert token { entry with
      hbFloor := now + entry.ttl.nanos / 20
      lastSeen := now })

def bind (book : SessionBook) (now : Nat) (token key lockToken : String) : Bool × SessionBook :=
  match book.lookup token with
  | none => (false, book)
  | some entry => (true, book.insert token { entry with
      lastSeen := now
      locks := entry.locks ++ [(key, lockToken)] })

/-- The locks of the removed session. -/
def remove (book : SessionBook) (token : String) : List (String × String) × SessionBook :=
  (((book.lookup token).map SessionEntry.locks).getD [], book.erase token)

/-- The tokens of the expired sessions, in the order of the representation. -/
def expired (book : SessionBook) (now : Nat) : List String :=
  (book.entries.filter fun entry => entry.2.expired now).map Sigma.fst

theorem mem_expired {book : SessionBook} {now : Nat} {token : String} : token ∈ book.expired now ↔
    ∃ entry, book.lookup token = some entry ∧ entry.expired now = true := by
  simp only [expired, List.mem_map, List.mem_filter]
  constructor
  · rintro ⟨⟨name, entry⟩, ⟨stored, late⟩, rfl⟩
    exact ⟨entry, AList.mem_lookup_iff.mpr stored, late⟩
  · rintro ⟨entry, found, late⟩
    exact ⟨⟨token, entry⟩, ⟨AList.mem_lookup_iff.mp found, late⟩, rfl⟩

end SessionBook

/-- Where a task stands that works through sessions or their locks: a sweep, or the
rest of a `close`. `left` are the sessions a sweep has listed and not come to. -/
inductive Task where
  | listed (left : List String)
  /-- The next session was looked up and found. -/
  | found (token : String) (left : List String)
  /-- A session was removed; its locks are being released. -/
  | releasing (locks : List (String × String)) (left : List String)
  deriving DecidableEq

/-- The sessions a task is going to remove. -/
def Task.pending : Task → List String
  | .listed left | .releasing _ left => left
  | .found token left => token :: left

/-- A session removed by a sweep: when, and when it was last told that it lives. -/
structure Removal where
  token : String
  ttl : Duration
  instant : Nat
  answered : Option Nat
  deriving DecidableEq

def Removal.Due (removal : Removal) : Prop :=
  ∀ last, removal.answered = some last → last + removal.ttl.nanos < removal.instant

/-- `answered` is the last heartbeat answered `Ok` or bind answered `true` of each session
and `removals` what sweeps removed; no code reads them. -/
structure Sessions where
  now : Nat
  book : SessionBook
  issued : List String
  tasks : List Task
  answered : String → Option Nat
  removals : List Removal

inductive SessionAction where
  /-- Session tokens are fresh. -/
  | register (token clientId : String) (ttl : Duration)
  | heartbeat (token : String)
  | bind (token key lockToken : String)
  | close (token : String)
  /-- A sweep begins; the map is iterated in any order. -/
  | snapshot (order : List String)
  | lookup (task : Nat)
  | remove (task : Nat)
  /-- One release has been awaited, or there is none left and the next session is due. -/
  | proceed (task : Nat)
  deriving DecidableEq

structure SessionMoment where
  delay : Nat
  action : SessionAction
  deriving DecidableEq

namespace Sessions

def wait (s : Sessions) (delay : Nat) : Sessions := { s with now := s.now + delay }

def setTask (s : Sessions) (i : Nat) (task : Task) : Sessions := { s with tasks := s.tasks.set i task }

/-- The log after a sweep removed a session, if it was there. -/
def logged (s : Sessions) (token : String) : List Removal :=
  match s.book.lookup token with
  | some entry => ⟨token, entry.ttl, s.now, s.answered token⟩ :: s.removals
  | none => s.removals

def act (s : Sessions) : SessionAction → Option Sessions
  | .register token clientId ttl =>
    if token ∉ s.issued then
      some { s with book := s.book.register s.now token clientId ttl, issued := token :: s.issued }
    else none
  | .heartbeat token =>
    let (result, book) := s.book.heartbeat s.now token
    some { s with
      book
      answered := if result = .ok then Function.update s.answered token (some s.now) else s.answered }
  | .bind token key lockToken =>
    let (bound, book) := s.book.bind s.now token key lockToken
    some { s with
      book
      answered := if bound then Function.update s.answered token (some s.now) else s.answered }
  | .close token =>
    let (locks, book) := s.book.remove token
    some { s with book, tasks := s.tasks ++ [.releasing locks []] }
  | .snapshot order =>
    if order.Perm (s.book.expired s.now) then some { s with tasks := s.tasks ++ [.listed order] }
    else none
  | .lookup i =>
    match s.tasks[i]? with
    | some (.listed (token :: left)) =>
      some (s.setTask i (if (s.book.lookup token).isSome then .found token left else .listed left))
    | _ => none
  | .remove i =>
    match s.tasks[i]? with
    | some (.found token left) =>
      let (locks, book) := s.book.remove token
      some { s.setTask i (.releasing locks left) with book, removals := s.logged token }
    | _ => none
  | .proceed i =>
    match s.tasks[i]? with
    | some (.releasing (_ :: locks) left) => some (s.setTask i (.releasing locks left))
    | some (.releasing [] left) => some (s.setTask i (.listed left))
    | _ => none

end Sessions

def sessions : Machine Sessions SessionMoment where
  initial s := s.book = ∅ ∧ s.issued = [] ∧ s.tasks = [] ∧ s.answered = (fun _ => none) ∧ s.removals = []
  step s moment := (s.wait moment.delay).act moment.action

/-- Sweeps remove a session only after more than its budget of silence. -/
def Sessions.NeverPremature (s : Sessions) : Prop := ∀ removal ∈ s.removals, removal.Due

/-- No running sweep has the session on its list. -/
def Sessions.Unlisted (s : Sessions) (token : String) : Prop := ∀ task ∈ s.tasks, token ∉ task.pending

/-- A session that a sweep has listed and not come to is told no more that it lives. -/
def Undisturbed (s : Sessions) : SessionMoment → Prop
  | ⟨delay, .heartbeat token⟩ => ∀ entry ∈ s.book.lookup token,
    entry.hbFloor ≤ s.now + delay → s.Unlisted token
  | ⟨_, .bind token _ _⟩ => (s.book.lookup token).isSome → s.Unlisted token
  | _ => True

theorem SessionEntry.expired_iff {entry : SessionEntry} {now : Nat} :
    entry.expired now = true ↔ entry.lastSeen + entry.ttl.nanos < now := by
  simp only [SessionEntry.expired, decide_eq_true_eq]
  omega

namespace Sessions
variable {s t : Sessions}

/-- Everything an action can do. -/
inductive Moves (s : Sessions) : SessionAction → Sessions → Prop where
  | register {token clientId : String} {ttl : Duration} (fresh : token ∉ s.issued) :
      Moves s (.register token clientId ttl)
      { s with book := s.book.register s.now token clientId ttl, issued := token :: s.issued }
  /-- The session is not there, or its heartbeat comes too early. -/
  | refused {action : SessionAction} : Moves s action s
  | heartbeat {token : String} {entry : SessionEntry} (found : s.book.lookup token = some entry)
      (due : entry.hbFloor ≤ s.now) : Moves s (.heartbeat token) { s with
        book := s.book.insert token { entry with
          hbFloor := s.now + entry.ttl.nanos / 20
          lastSeen := s.now }
        answered := Function.update s.answered token (some s.now) }
  | bind {token key lockToken : String} {entry : SessionEntry} (found : s.book.lookup token = some entry) :
      Moves s (.bind token key lockToken) { s with
        book := s.book.insert token { entry with
          lastSeen := s.now
          locks := entry.locks ++ [(key, lockToken)] }
        answered := Function.update s.answered token (some s.now) }
  | close {token : String} {locks : List (String × String)} : Moves s (.close token)
      { s with book := s.book.erase token, tasks := s.tasks ++ [.releasing locks []] }
  | snapshot {order : List String} (listed : order.Perm (s.book.expired s.now)) : Moves s (.snapshot order)
      { s with tasks := s.tasks ++ [.listed order] }
  /-- A task goes on and is going to remove nothing new. -/
  | retask {action : SessionAction} {i : Nat} {old task : Task} (running : s.tasks[i]? = some old)
      (fewer : task.pending ⊆ old.pending) : Moves s action (s.setTask i task)
  | remove {i : Nat} {token : String} {left : List String} {locks : List (String × String)}
      (running : s.tasks[i]? = some (.found token left)) : Moves s (.remove i)
      { s.setTask i (.releasing locks left) with book := s.book.erase token, removals := s.logged token }

theorem pending_set {i : Nat} {old task other : Task} {token : String} (running : s.tasks[i]? = some old)
    (fewer : task.pending ⊆ old.pending) (member : other ∈ s.tasks.set i task)
    (listed : token ∈ other.pending) : ∃ old ∈ s.tasks, token ∈ old.pending := by
  obtain before | rfl := List.mem_or_eq_of_mem_set member
  · exact ⟨other, before, listed⟩
  · exact ⟨old, List.mem_of_getElem? running, fewer listed⟩

theorem act_moves {action : SessionAction} (stepped : s.act action = some t) : s.Moves action t := by
  cases action with
  | register token clientId ttl =>
    obtain ⟨fresh, ⟨⟩⟩ := Option.ite_none_right_eq_some.mp stepped
    exact .register fresh
  | heartbeat token =>
    cases found : s.book.lookup token with
    | none =>
      simp only [act, SessionBook.heartbeat, found] at stepped
      cases stepped
      exact .refused
    | some entry =>
      by_cases early : s.now < entry.hbFloor
      · simp only [act, SessionBook.heartbeat, found, if_pos early] at stepped
        cases stepped
        exact .refused
      · simp only [act, SessionBook.heartbeat, found, if_neg early] at stepped
        cases stepped
        exact .heartbeat found (Nat.le_of_not_lt early)
  | bind token key lockToken =>
    cases found : s.book.lookup token with
    | none =>
      simp only [act, SessionBook.bind, found] at stepped
      cases stepped
      exact .refused
    | some entry =>
      simp only [act, SessionBook.bind, found] at stepped
      cases stepped
      exact .bind found
  | close token =>
    cases stepped
    exact .close
  | snapshot order =>
    obtain ⟨listed, ⟨⟩⟩ := Option.ite_none_right_eq_some.mp stepped
    exact .snapshot listed
  | lookup i =>
    simp only [act] at stepped
    split at stepped
    · next running =>
      cases stepped
      refine .retask running ?_
      split
      · exact List.Subset.refl _
      · exact List.subset_cons_self _ _
    · contradiction
  | remove i =>
    simp only [act] at stepped
    split at stepped
    · next running =>
      cases stepped
      exact .remove running
    · contradiction
  | proceed i =>
    simp only [act] at stepped
    split at stepped
    · next running =>
      cases stepped
      exact .retask running (List.Subset.refl _)
    · next running =>
      cases stepped
      exact .retask running (List.Subset.refl _)
    · contradiction

/-- In an undisturbed run: whatever a sweep has listed and not come to is issued, and
expired if it is still there; and the book has seen a session no earlier than it was told. -/
structure Inv (s : Sessions) : Prop where
  booked : ∀ token entry, s.book.lookup token = some entry → token ∈ s.issued
  pending : ∀ task ∈ s.tasks, ∀ token ∈ task.pending, token ∈ s.issued
  late : ∀ task ∈ s.tasks, ∀ token ∈ task.pending, ∀ entry,
    s.book.lookup token = some entry → entry.expired s.now = true
  past : ∀ token last, s.answered token = some last → last ≤ s.now
  seen : ∀ token last entry, s.answered token = some last → s.book.lookup token = some entry →
    last ≤ entry.lastSeen
  due : s.NeverPremature

namespace Inv

theorem wait (inv : s.Inv) (delay : Nat) : (s.wait delay).Inv where
  booked := inv.booked
  pending := inv.pending
  late task running token member entry found := by
    have late := SessionEntry.expired_iff.mp (inv.late task running token member entry found)
    exact SessionEntry.expired_iff.mpr (by simp only [Sessions.wait]; omega)
  past token last told := by
    have before := inv.past token last told
    simp only [Sessions.wait]
    omega
  seen := inv.seen
  due := inv.due

theorem register (inv : s.Inv) {token clientId : String} {ttl : Duration} (fresh : token ∉ s.issued) :
    Inv { s with book := s.book.register s.now token clientId ttl, issued := token :: s.issued } where
  booked name entry found := by
    by_cases same : name = token
    · exact same ▸ List.mem_cons_self
    · rw [SessionBook.register, AList.lookup_insert_ne same] at found
      exact List.mem_cons_of_mem _ (inv.booked name entry found)
  pending task running name member := List.mem_cons_of_mem _ (inv.pending task running name member)
  late task running name member entry found := by
    have other : name ≠ token := by
      rintro rfl
      exact fresh (inv.pending task running name member)
    rw [SessionBook.register, AList.lookup_insert_ne other] at found
    exact inv.late task running name member entry found
  past := inv.past
  seen name last entry told found := by
    by_cases same : name = token
    · subst same
      rw [SessionBook.register, AList.lookup_insert] at found
      cases found
      exact inv.past name last told
    · rw [SessionBook.register, AList.lookup_insert_ne same] at found
      exact inv.seen name last entry told found
  due := inv.due

/-- A session that no sweep has listed is told that it lives. -/
theorem tell (inv : s.Inv) {token : String} {entry next : SessionEntry} (unlisted : s.Unlisted token)
    (found : s.book.lookup token = some entry) (fresh : next.lastSeen = s.now) :
    Inv { s with
      book := s.book.insert token next
      answered := Function.update s.answered token (some s.now) } where
  booked name after stored := by
    by_cases same : name = token
    · exact same ▸ inv.booked token entry found
    · rw [AList.lookup_insert_ne same] at stored
      exact inv.booked name after stored
  pending := inv.pending
  late task running name member after stored := by
    have other : name ≠ token := by
      rintro rfl
      exact unlisted task running member
    rw [AList.lookup_insert_ne other] at stored
    exact inv.late task running name member after stored
  past name last told := by
    obtain ⟨_, ⟨⟩⟩ | ⟨_, told⟩ := update_eq_some told
    · exact Nat.le_refl _
    · exact inv.past name last told
  seen name last after told stored := by
    obtain ⟨rfl, ⟨⟩⟩ | ⟨other, told⟩ := update_eq_some told
    · rw [AList.lookup_insert] at stored
      cases stored
      exact fresh.ge
    · rw [AList.lookup_insert_ne other] at stored
      exact inv.seen name last after told stored
  due := inv.due

theorem erase (inv : s.Inv) (token : String) : Inv { s with book := s.book.erase token } := by
  have kept (name : String) (entry : SessionEntry)
      (found : (s.book.erase token).lookup name = some entry) : s.book.lookup name = some entry := by
    by_cases same : name = token
    · subst same
      rw [AList.lookup_erase] at found
      contradiction
    · rwa [AList.lookup_erase_ne same] at found
  exact {
    booked := fun name entry found => inv.booked name entry (kept name entry found)
    pending := inv.pending
    late := fun task running name member entry found =>
      inv.late task running name member entry (kept name entry found)
    past := inv.past
    seen := fun name last entry told found => inv.seen name last entry told (kept name entry found)
    due := inv.due }

/-- Tasks that are going to remove nothing new. -/
theorem retask (inv : s.Inv) {tasks : List Task} (fewer : ∀ task ∈ tasks, ∀ token ∈ task.pending,
    ∃ old ∈ s.tasks, token ∈ old.pending) : Inv { s with tasks } where
  booked := inv.booked
  pending task running token member := by
    obtain ⟨old, before, member⟩ := fewer task running token member
    exact inv.pending old before token member
  late task running token member := by
    obtain ⟨old, before, member⟩ := fewer task running token member
    exact inv.late old before token member
  past := inv.past
  seen := inv.seen
  due := inv.due

theorem setTask (inv : s.Inv) {i : Nat} {old task : Task} (running : s.tasks[i]? = some old)
    (fewer : task.pending ⊆ old.pending) : (s.setTask i task).Inv :=
  inv.retask fun _ member _ listed => pending_set running fewer member listed

theorem snapshot (inv : s.Inv) {order : List String} (listed : order.Perm (s.book.expired s.now)) :
    Inv { s with tasks := s.tasks ++ [.listed order] } := by
  have expired (token : String) (member : token ∈ order) :=
    SessionBook.mem_expired.mp (listed.mem_iff.mp member)
  refine { booked := inv.booked, pending := ?_, late := ?_, past := inv.past, seen := inv.seen, due := inv.due }
  · intro task running token member
    obtain before | now := List.mem_append.mp running
    · exact inv.pending task before token member
    · obtain rfl := List.mem_singleton.mp now
      obtain ⟨entry, found, _⟩ := expired token member
      exact inv.booked token entry found
  · intro task running token member entry found
    obtain before | now := List.mem_append.mp running
    · exact inv.late task before token member entry found
    · obtain rfl := List.mem_singleton.mp now
      obtain ⟨stored, same, late⟩ := expired token member
      cases same.symm.trans found
      exact late

/-- What a sweep comes to remove has been silent for more than its budget. -/
theorem logged (inv : s.Inv) {task : Task} (running : task ∈ s.tasks) {token : String}
    (member : token ∈ task.pending) : ∀ removal ∈ s.logged token, removal.Due := by
  unfold Sessions.logged
  split
  · next entry found =>
    intro removal logged
    obtain rfl | before := List.mem_cons.mp logged
    · intro last told
      have late := SessionEntry.expired_iff.mp (inv.late task running token member entry found)
      have seen := inv.seen token last entry told found
      simp only
      omega
    · exact inv.due removal before
  · exact inv.due

theorem act {action : SessionAction} (inv : s.Inv) (calm : Undisturbed s ⟨0, action⟩)
    (stepped : s.act action = some t) : t.Inv := by
  cases act_moves stepped with
  | register fresh => exact inv.register fresh
  | refused => exact inv
  | heartbeat found due => exact inv.tell (calm _ found due) found rfl
  | bind found => exact inv.tell (calm (found ▸ rfl)) found rfl
  | @close token =>
    refine (inv.erase token).retask fun task member name listed => ?_
    obtain before | now := List.mem_append.mp member
    · exact ⟨task, before, listed⟩
    · obtain rfl := List.mem_singleton.mp now
      simp [Task.pending] at listed
  | snapshot listed => exact inv.snapshot listed
  | retask running fewer => exact inv.setTask running fewer
  | @remove i token left locks running =>
    have due : ∀ removal ∈ s.logged token, removal.Due :=
      inv.logged (List.mem_of_getElem? running) List.mem_cons_self
    have smaller : (s.setTask i (.releasing locks left)).Inv :=
      inv.setTask running (List.subset_cons_self _ _)
    exact { smaller.erase token with due }

end Inv

theorem Undisturbed.wait {moment : SessionMoment} (calm : Undisturbed s moment) :
    Undisturbed (s.wait moment.delay) ⟨0, moment.action⟩ := by
  obtain ⟨delay, action⟩ := moment
  cases action with
  | heartbeat | bind => exact calm
  | register | close | snapshot | lookup | remove | proceed => trivial

end Sessions

/-- In every run in which no session is told that it lives while a sweep has it on its
list, sweeps remove only sessions that were silent for more than their budget. -/
theorem sweeping_never_premature {s : Sessions} (reach : sessions.ReachableWhen Undisturbed s) :
    s.NeverPremature := by
  have inv : s.Inv := by
    refine reach.invariant ?_ fun s moment t inv calm stepped =>
      (inv.wait moment.delay).act (Sessions.Undisturbed.wait calm) stepped
    rintro s ⟨book, issued, tasks, answered, removals⟩
    constructor
    all_goals simp [book, tasks, answered, removals, Sessions.NeverPremature]
  exact inv.due

instance (s : Sessions) (token : String) : Decidable (s.Unlisted token) :=
  inferInstanceAs (Decidable (∀ task ∈ s.tasks, token ∉ task.pending))

instance (s : Sessions) (moment : SessionMoment) : Decidable (Undisturbed s moment) :=
  match moment with
  | ⟨delay, .heartbeat token⟩ => inferInstanceAs (Decidable (∀ entry ∈ s.book.lookup token,
    entry.hbFloor ≤ s.now + delay → s.Unlisted token))
  | ⟨_, .bind token _ _⟩ => inferInstanceAs (Decidable ((s.book.lookup token).isSome → s.Unlisted token))
  | ⟨_, .register _ _ _⟩ | ⟨_, .close _⟩ | ⟨_, .snapshot _⟩ | ⟨_, .lookup _⟩ | ⟨_, .remove _⟩
  | ⟨_, .proceed _⟩ => isTrue trivial

def Sessions.fresh : Sessions := ⟨0, ∅, [], [], fun _ => none, []⟩

theorem Sessions.fresh_initial : sessions.initial .fresh := ⟨rfl, rfl, rfl, rfl, rfl⟩

/-- A session of 3 s that falls silent after one heartbeat is removed at 5 s. -/
theorem silent_session_removed : ∃ s : Sessions, s.NeverPremature ∧
    s.removals = [⟨"s", .fromMillis 3000, 5000000000, some 1000000000⟩] := by
  obtain ⟨s, reach, removed⟩ := Machine.exists_reachableWhen Undisturbed
    (fun s : Sessions => s.removals = [⟨"s", .fromMillis 3000, 5000000000, some 1000000000⟩])
    Sessions.fresh_initial
    [⟨0, .register "s" "client" (.fromMillis 3000)⟩, ⟨1000000000, .heartbeat "s"⟩,
      ⟨4000000000, .snapshot ["s"]⟩, ⟨0, .lookup 0⟩, ⟨0, .remove 0⟩]
    (by decide)
  exact ⟨s, sweeping_never_premature reach, removed⟩

/-- A heartbeat is answered `Ok` after the sweep listed the session, which then goes. -/
theorem live_session_removed : ¬ ∀ s : Sessions, sessions.Reachable s → s.NeverPremature := by
  intro never
  obtain ⟨s, reach, removed⟩ := Machine.exists_reachableWhen (fun _ _ => True)
    (fun s : Sessions => s.removals = [⟨"s", .fromMillis 3000, 4000000000, some 4000000000⟩])
    Sessions.fresh_initial
    [⟨0, .register "s" "client" (.fromMillis 3000)⟩, ⟨4000000000, .snapshot ["s"]⟩, ⟨0, .lookup 0⟩,
      ⟨0, .heartbeat "s"⟩, ⟨0, .remove 0⟩]
    (by decide)
  have due := never s reach ⟨"s", .fromMillis 3000, 4000000000, some 4000000000⟩ (by simp [removed])
  have short : 4000000000 + (Duration.fromMillis 3000).nanos < 4000000000 := due 4000000000 rfl
  omega

end Palisade.Server
