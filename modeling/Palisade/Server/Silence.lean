import Palisade.Server.Heartbeats

/-! What sessions are told that have been silent for longer than their lease. The session
book does not look at `expired` when a heartbeat or a bind comes in; only sweeps do. -/
namespace Palisade.Server
open Transition

/-- The answer to a heartbeat or a bind. -/
inductive Told where
  | heartbeat (result : HbResult)
  | bind (bound : Bool)
  deriving DecidableEq

namespace Told

def accepted : Told → Bool
  | .heartbeat result => result = .ok
  | .bind bound => bound

/-- The session is told that it does not exist. -/
def refused : Told → Bool
  | .heartbeat result => result = .unknown
  | .bind bound => !bound

end Told

/-- `accepted` is the lease of each session and when it was registered or last had a
heartbeat or a bind accepted. `silent` are the sessions that have been heard of after more
than their lease without either, and `late` what they were told then and ever since. No code
reads these. -/
structure Silence where
  sessions : Sessions
  accepted : String → Option (Duration × Nat)
  silent : String → Bool
  late : List Told

namespace Silence

def wait (s : Silence) (delay : Nat) : Silence := { s with sessions := s.sessions.wait delay }

/-- By now the session has at some time been silent for more than its lease. -/
def lapsed (s : Silence) (token : String) : Bool :=
  s.silent token || (s.accepted token).any fun (lease, last) => decide (last + lease.nanos < s.sessions.now)

/-- A heartbeat or a bind was answered and left the book in this state. -/
def tell (s : Silence) (token : String) (told : Told) (after : Sessions) : Silence where
  sessions := after
  accepted :=
    if told.accepted then
      Function.update s.accepted token ((s.accepted token).map fun (lease, _) => (lease, s.sessions.now))
    else s.accepted
  silent := Function.update s.silent token (s.lapsed token)
  late := if s.lapsed token then told :: s.late else s.late

def act (s : Silence) (action : SessionAction) : Option Silence :=
  (s.sessions.act action).map fun after =>
    match action with
    | .register token _ lease =>
      { s with
        sessions := after
        accepted := Function.update s.accepted token (some (lease, s.sessions.now)) }
    | .heartbeat token => s.tell token (.heartbeat (s.sessions.book.heartbeat s.sessions.now token).1) after
    | .bind token key lockToken =>
      s.tell token (.bind (s.sessions.book.bind s.sessions.now token key lockToken).1) after
    | .close _ | .snapshot _ | .lookup _ | .remove _ | .proceed _ => { s with sessions := after }

/-- Once silent for more than its lease, a session is told that it does not exist. -/
def StaysDead (s : Silence) : Prop := ∀ told ∈ s.late, told.refused = true

end Silence

def silence : Machine Silence SessionMoment where
  initial s := sessions.initial s.sessions ∧ s.accepted = (fun _ => none) ∧ s.silent = (fun _ => false) ∧
    s.late = []
  step s moment := (s.wait moment.delay).act moment.action

/-- A session whose lease has run out is gone from the book before it is heard of again. -/
def Buried (s : Silence) : SessionMoment → Prop
  | ⟨delay, .heartbeat token⟩ | ⟨delay, .bind token _ _⟩ =>
    ∀ entry ∈ s.sessions.book.lookup token, entry.expired (s.sessions.now + delay) = false
  | _ => True

namespace Silence
variable {s t : Silence} {action : SessionAction}

/-- What the book makes of a heartbeat or a bind of a session. -/
inductive Answers (s : Sessions) (token : String) : Told → SessionBook → Prop where
  | unknown {told : Told} (absent : s.book.lookup token = none) (refused : told.refused = true)
      (ignored : told.accepted = false) : Answers s token told s.book
  /-- A heartbeat that comes too early. -/
  | limited {told : Told} {entry : SessionEntry} (found : s.book.lookup token = some entry)
      (present : told.refused = false) (ignored : told.accepted = false) : Answers s token told s.book
  | accepted {told : Told} {entry next : SessionEntry} (found : s.book.lookup token = some entry)
      (present : told.refused = false) (taken : told.accepted = true) (lease : next.ttl = entry.ttl)
      (seen : next.lastSeen = s.now) : Answers s token told (s.book.insert token next)

theorem heartbeat_answers (s : Sessions) (token : String) :
    Answers s token (.heartbeat (s.book.heartbeat s.now token).1) (s.book.heartbeat s.now token).2 := by
  unfold SessionBook.heartbeat
  cases found : s.book.lookup token with
  | none => exact .unknown found rfl rfl
  | some entry =>
    by_cases early : s.now < entry.hbFloor
    · simp only [if_pos early]
      exact .limited found rfl rfl
    · simp only [if_neg early]
      exact .accepted found rfl rfl rfl rfl

theorem bind_answers (s : Sessions) (token key lockToken : String) :
    Answers s token (.bind (s.book.bind s.now token key lockToken).1) (s.book.bind s.now token key lockToken).2 := by
  unfold SessionBook.bind
  cases found : s.book.lookup token with
  | none => exact .unknown found rfl rfl
  | some entry => exact .accepted found rfl rfl rfl rfl

/-- Everything an action can do. -/
inductive Moves (s : Silence) : SessionAction → Silence → Prop where
  | register {token clientId : String} {lease : Duration} (fresh : token ∉ s.sessions.issued) :
      Moves s (.register token clientId lease) { s with
        sessions := { s.sessions with
          book := s.sessions.book.register s.sessions.now token clientId lease
          issued := token :: s.sessions.issued }
        accepted := Function.update s.accepted token (some (lease, s.sessions.now)) }
  | tell {action : SessionAction} {token : String} {told : Told} {after : Sessions}
      (asks : action = .heartbeat token ∨ ∃ key lockToken, action = .bind token key lockToken)
      (answers : Answers s.sessions token told after.book) (issued : after.issued = s.sessions.issued) :
      Moves s action (s.tell token told after)
  /-- Nothing is answered and no session is new to the book. -/
  | aside {action : SessionAction} {after : Sessions} (unasked : ∀ delay, Buried s ⟨delay, action⟩)
      (fewer : ∀ token entry, after.book.lookup token = some entry → s.sessions.book.lookup token = some entry)
      (issued : after.issued = s.sessions.issued) : Moves s action { s with sessions := after }

theorem lookup_of_erase {book : SessionBook} {name token : String} {entry : SessionEntry}
    (found : (book.erase name).lookup token = some entry) : book.lookup token = some entry := by
  by_cases same : token = name
  · subst same
    rw [AList.lookup_erase] at found
    contradiction
  · rwa [AList.lookup_erase_ne same] at found

theorem act_moves (stepped : s.act action = some t) : s.Moves action t := by
  obtain ⟨after, acted, rfl⟩ := Option.map_eq_some_iff.mp stepped
  cases action with
  | register token clientId lease =>
    obtain ⟨fresh, ⟨⟩⟩ := Option.ite_none_right_eq_some.mp acted
    exact .register fresh
  | heartbeat token =>
    cases acted
    exact .tell (.inl rfl) (heartbeat_answers s.sessions token) rfl
  | bind token key lockToken =>
    cases acted
    exact .tell (.inr ⟨key, lockToken, rfl⟩) (bind_answers s.sessions token key lockToken) rfl
  | close token =>
    cases acted
    exact .aside (fun _ => trivial) (fun _ _ => lookup_of_erase) rfl
  | snapshot order =>
    obtain ⟨_, ⟨⟩⟩ := Option.ite_none_right_eq_some.mp acted
    exact .aside (fun _ => trivial) (fun _ _ found => found) rfl
  | lookup i =>
    simp only [Sessions.act] at acted
    split at acted
    · cases acted
      exact .aside (fun _ => trivial) (fun _ _ found => found) rfl
    · contradiction
  | remove i =>
    simp only [Sessions.act] at acted
    split at acted
    · cases acted
      exact .aside (fun _ => trivial) (fun _ _ => lookup_of_erase) rfl
    · contradiction
  | proceed i =>
    simp only [Sessions.act] at acted
    split at acted
    · cases acted
      exact .aside (fun _ => trivial) (fun _ _ found => found) rfl
    · cases acted
      exact .aside (fun _ => trivial) (fun _ _ found => found) rfl
    · contradiction

/-- The book has the instants of the sessions it has, and none of them has ever lapsed. -/
structure Heard (s : Silence) : Prop where
  booked : ∀ token entry, s.sessions.book.lookup token = some entry →
    token ∈ s.sessions.issued ∧ s.accepted token = some (entry.ttl, entry.lastSeen) ∧ s.silent token = false
  issued : ∀ token, s.silent token = true → token ∈ s.sessions.issued
  registered : ∀ token, (s.accepted token).isSome → token ∈ s.sessions.issued
  dead : s.StaysDead

theorem Heard.lapsed (heard : s.Heard) {token : String} {entry : SessionEntry}
    (found : s.sessions.book.lookup token = some entry) : s.lapsed token = entry.expired s.sessions.now := by
  obtain ⟨_, accepted, unsilent⟩ := heard.booked token entry found
  rw [Silence.lapsed, accepted, unsilent, Bool.false_or, Option.any_some, Bool.eq_iff_iff, decide_eq_true_eq,
    SessionEntry.expired_iff]

theorem Heard.lapsed_issued (heard : s.Heard) {token : String} (lapsed : s.lapsed token = true) :
    token ∈ s.sessions.issued := by
  rw [Silence.lapsed, Bool.or_eq_true] at lapsed
  obtain silent | late := lapsed
  · exact heard.issued token silent
  · obtain ⟨_, accepted, _⟩ := (Option.any_eq_true _ _).mp late
    exact heard.registered token (accepted ▸ rfl)

theorem Heard.wait (heard : s.Heard) (delay : Nat) : (s.wait delay).Heard :=
  ⟨heard.booked, heard.issued, heard.registered, heard.dead⟩

theorem Heard.register (heard : s.Heard) {token clientId : String} {lease : Duration}
    (fresh : token ∉ s.sessions.issued) : Heard { s with
      sessions := { s.sessions with
        book := s.sessions.book.register s.sessions.now token clientId lease
        issued := token :: s.sessions.issued }
      accepted := Function.update s.accepted token (some (lease, s.sessions.now)) } where
  booked name entry found := by
    by_cases same : name = token
    · subst same
      rw [SessionBook.register, AList.lookup_insert] at found
      cases found
      refine ⟨List.mem_cons_self, Function.update_self .., Bool.eq_false_iff.mpr ?_⟩
      exact fun silent => fresh (heard.issued name silent)
    · rw [SessionBook.register, AList.lookup_insert_ne same] at found
      obtain ⟨issued, accepted, unsilent⟩ := heard.booked name entry found
      exact ⟨List.mem_cons_of_mem _ issued, (Function.update_of_ne same ..).trans accepted, unsilent⟩
  issued name silent := List.mem_cons_of_mem _ (heard.issued name silent)
  registered name accepted := by
    by_cases same : name = token
    · exact same ▸ List.mem_cons_self
    · simp only [Function.update_of_ne same] at accepted
      exact List.mem_cons_of_mem _ (heard.registered name accepted)
  dead := heard.dead

/-- What a session in the book is told is never that it does not exist. -/
theorem Heard.tell_dead_iff (heard : s.Heard) {token : String} {told : Told} {after : Sessions}
    (answers : Answers s.sessions token told after.book) : (s.tell token told after).StaysDead ↔
      ∀ entry ∈ s.sessions.book.lookup token, entry.expired s.sessions.now = false := by
  have present {entry : SessionEntry} (found : s.sessions.book.lookup token = some entry)
      (denied : told.refused = false) : (s.tell token told after).StaysDead ↔
        ∀ entry ∈ s.sessions.book.lookup token, entry.expired s.sessions.now = false := by
    simp only [StaysDead, tell, heard.lapsed found, found, Option.mem_some_iff, forall_eq']
    constructor
    · intro dead
      by_contra late
      have refused := dead told (by simp [late])
      rw [denied] at refused
      contradiction
    · intro early
      rw [early]
      exact heard.dead
  generalize book : after.book = after' at answers
  cases answers with
  | unknown absent refused =>
    refine iff_of_true ?_ (by simp [absent])
    intro answer member
    simp only [tell] at member
    split at member
    · obtain rfl | before := List.mem_cons.mp member
      · exact refused
      · exact heard.dead answer before
    · exact heard.dead answer member
  | limited found denied => exact present found denied
  | accepted found denied => exact present found denied

/-- What is said of the sessions of the book stays true of those an answer leaves in it. -/
theorem Heard.tell_booked (heard : s.Heard) {token name : String} {told : Told} {after : Sessions} {entry : SessionEntry}
    (answers : Answers s.sessions token told after.book)
    (buried : ∀ entry ∈ s.sessions.book.lookup token, entry.expired s.sessions.now = false)
    (found : after.book.lookup name = some entry) : name ∈ s.sessions.issued ∧
      (s.tell token told after).accepted name = some (entry.ttl, entry.lastSeen) ∧
      (s.tell token told after).silent name = false := by
  simp only [Silence.tell]
  generalize after.book = book at answers found
  cases answers with
  | unknown absent _ ignored =>
    have other : name ≠ token := by
      rintro rfl
      cases absent.symm.trans found
    rw [if_neg (by simp [ignored]), Function.update_of_ne other]
    exact heard.booked name entry found
  | @limited stored here _ ignored =>
    rw [if_neg (by simp [ignored])]
    by_cases same : name = token
    · subst same
      rw [Function.update_self, heard.lapsed here, buried stored here]
      obtain ⟨issued, accepted, _⟩ := heard.booked name entry found
      exact ⟨issued, accepted, rfl⟩
    · rw [Function.update_of_ne same]
      exact heard.booked name entry found
  | @accepted stored next here _ taken lease seen =>
    rw [if_pos taken]
    by_cases same : name = token
    · subst same
      rw [AList.lookup_insert] at found
      cases found
      obtain ⟨issued, accepted, _⟩ := heard.booked name stored here
      rw [Function.update_self, Function.update_self, heard.lapsed here, buried stored here, accepted,
        lease, seen]
      exact ⟨issued, rfl, rfl⟩
    · rw [AList.lookup_insert_ne same] at found
      rw [Function.update_of_ne same, Function.update_of_ne same]
      exact heard.booked name entry found

/-- An answer to a session that the book does not have or that is within its lease. -/
theorem Heard.tell (heard : s.Heard) {token : String} {told : Told} {after : Sessions}
    (answers : Answers s.sessions token told after.book) (issued : after.issued = s.sessions.issued)
    (buried : ∀ entry ∈ s.sessions.book.lookup token, entry.expired s.sessions.now = false) :
    (s.tell token told after).Heard where
  booked name entry found := by
    obtain ⟨minted, kept⟩ := heard.tell_booked answers buried found
    exact ⟨issued ▸ minted, kept⟩
  issued name silent := by
    simp only [Silence.tell, issued] at silent ⊢
    by_cases same : name = token
    · subst same
      rw [Function.update_self] at silent
      exact heard.lapsed_issued silent
    · rw [Function.update_of_ne same] at silent
      exact heard.issued name silent
  registered name accepted := by
    simp only [Silence.tell, issued] at accepted ⊢
    split at accepted
    · by_cases same : name = token
      · subst same
        rw [Function.update_self, Option.isSome_map] at accepted
        exact heard.registered name accepted
      · rw [Function.update_of_ne same] at accepted
        exact heard.registered name accepted
    · exact heard.registered name accepted
  dead := (heard.tell_dead_iff answers).mpr buried

/-- The rest of the book does not change what a session was told. -/
theorem Heard.aside (heard : s.Heard) {after : Sessions} (issued : after.issued = s.sessions.issued)
    (fewer : ∀ token entry, after.book.lookup token = some entry → s.sessions.book.lookup token = some entry) :
    Heard { s with sessions := after } where
  booked token entry found := by
    simp only [issued]
    exact heard.booked token entry (fewer token entry found)
  issued token silent := by
    simp only [issued]
    exact heard.issued token silent
  registered token accepted := by
    simp only [issued]
    exact heard.registered token accepted
  dead := heard.dead

/-- What the condition says of a heartbeat or a bind. -/
theorem buried_iff {token : String}
    (asks : action = .heartbeat token ∨ ∃ key lockToken, action = .bind token key lockToken) :
    Buried s ⟨0, action⟩ ↔ ∀ entry ∈ s.sessions.book.lookup token, entry.expired s.sessions.now = false := by
  obtain rfl | ⟨key, lockToken, rfl⟩ := asks
  · exact Iff.rfl
  · exact Iff.rfl

theorem Heard.act (heard : s.Heard) (buried : Buried s ⟨0, action⟩) (stepped : s.act action = some t) :
    t.Heard := by
  cases act_moves stepped with
  | register fresh => exact heard.register fresh
  | tell asks answers issued => exact heard.tell answers issued ((buried_iff asks).mp buried)
  | aside _ fewer issued => exact heard.aside issued fewer

/-- Exactly the answers to sessions that are still in the book past their lease revive them. -/
theorem Heard.act_dead_iff (heard : s.Heard) (stepped : s.act action = some t) :
    t.StaysDead ↔ Buried s ⟨0, action⟩ := by
  cases act_moves stepped with
  | register => exact iff_of_true heard.dead trivial
  | tell asks answers => exact (heard.tell_dead_iff answers).trans (buried_iff asks).symm
  | aside unasked => exact iff_of_true heard.dead (unasked 0)

theorem buried_wait {moment : SessionMoment} :
    Buried (s.wait moment.delay) ⟨0, moment.action⟩ ↔ Buried s moment := by
  obtain ⟨delay, action⟩ := moment
  cases action <;> exact Iff.rfl

theorem heard_of_reachable (reach : silence.ReachableWhen Buried s) : s.Heard := by
  refine reach.invariant ?_ fun s moment t heard buried stepped =>
    (heard.wait moment.delay).act (buried_wait.mpr buried) stepped
  rintro s ⟨⟨book, issued, _⟩, accepted, silent, late⟩
  constructor
  · simp [book]
  · simp [silent]
  · simp [accepted]
  · simp [StaysDead, late]

end Silence

/-- In every run in which a session past its lease is gone from the book before it is
heard of again, it stays dead; and the first request that finds one there revives it. -/
theorem expired_stays_dead {s : Silence} (reach : silence.ReachableWhen Buried s) : s.StaysDead ∧
    ∀ moment t, silence.step s moment = some t → (t.StaysDead ↔ Buried s moment) := by
  have heard := Silence.heard_of_reachable reach
  refine ⟨heard.dead, fun moment t stepped => ?_⟩
  exact ((heard.wait moment.delay).act_dead_iff stepped).trans Silence.buried_wait

instance (s : Silence) (moment : SessionMoment) : Decidable (Buried s moment) :=
  match moment with
  | ⟨delay, .heartbeat token⟩ | ⟨delay, .bind token _ _⟩ => inferInstanceAs (Decidable
    (∀ entry ∈ s.sessions.book.lookup token, entry.expired (s.sessions.now + delay) = false))
  | ⟨_, .register _ _ _⟩ | ⟨_, .close _⟩ | ⟨_, .snapshot _⟩ | ⟨_, .lookup _⟩ | ⟨_, .remove _⟩
  | ⟨_, .proceed _⟩ => isTrue trivial

def Silence.fresh : Silence := ⟨.fresh, fun _ => none, fun _ => false, []⟩

theorem Silence.fresh_initial : silence.initial .fresh := ⟨Sessions.fresh_initial, rfl, rfl, rfl⟩

/-- A session of 3 s is swept at 4 s; its heartbeat and a bind after that find it gone. -/
theorem swept_session_dead : ∃ s : Silence, s.StaysDead ∧ s.late = [.bind false, .heartbeat .unknown] := by
  obtain ⟨s, reach, late⟩ := Machine.exists_reachableWhen Buried
    (fun s : Silence => s.late = [.bind false, .heartbeat .unknown]) Silence.fresh_initial
    [⟨0, .register "s" "client" (.fromMillis 3000)⟩, ⟨4000000000, .snapshot ["s"]⟩, ⟨0, .lookup 0⟩,
      ⟨0, .remove 0⟩, ⟨0, .heartbeat "s"⟩, ⟨1000000000, .bind "s" "key" "token"⟩]
    (by decide)
  exact ⟨s, (expired_stays_dead reach).1, late⟩

/-- A session of 3 s is heard of again after 4 s, before the sweeper wakes up. -/
theorem late_heartbeat_accepted : ¬ ∀ s : Silence, silence.Reachable s → s.StaysDead := by
  intro dead
  obtain ⟨s, reach, late⟩ := Machine.exists_reachableWhen (fun _ _ => True)
    (fun s : Silence => s.late = [.bind true, .heartbeat .ok]) Silence.fresh_initial
    [⟨0, .register "s" "client" (.fromMillis 3000)⟩, ⟨4000000000, .heartbeat "s"⟩,
      ⟨0, .bind "s" "key" "token"⟩]
    (by decide)
  have refused := dead s reach (.heartbeat .ok) (by simp [late])
  cases refused

end Palisade.Server
