import Palisade.Server.Sessions

/-! A client that keeps its session alive beside the rest of the session book. The client
derives its cadence from the lease it asked for and the server derives the lease it
enforces from the same request. Remote calls take no time; other sessions, sweeps and the
binding of locks go on in between. -/
namespace Palisade
open Transition

namespace Client

/-- The `ttl_ms` of the request that `attach_session` sends. -/
def sessionTtlMs (ttl : Duration) : UInt64 := .ofNat ttl.asMillis

/-- What the heartbeat task of `attach_session` sleeps, in nanoseconds. -/
def cadence (ttl : Duration) : Nat := max (ttl.nanos / 3) (Duration.fromMillis 500).nanos

end Client

namespace Server

/-- The lease that `register_session` gives a session. -/
def sessionTtl (maxTtl : Duration) (ttlMs : UInt64) : Duration :=
  if ttlMs = 0 then .fromMillis 10000
  else if (Duration.fromMillis ttlMs).nanos ≤ maxTtl.nanos then .fromMillis ttlMs
  else maxTtl

/-- `due` is the instant of the next heartbeat of the session `token`. -/
structure Attached where
  book : Sessions
  token : String
  cadence : Nat
  due : Nat

inductive AttachedAction where
  /-- The heartbeat task wakes up. -/
  | heartbeat
  /-- Anything else, none of it a heartbeat or the close of this session. -/
  | other (moment : SessionMoment)
  deriving DecidableEq

namespace Attached

/-- The client does not oversleep: time does not pass a heartbeat that is due. -/
def act (s : Attached) : AttachedAction → Option Attached
  | .heartbeat =>
    (sessions.step s.book ⟨s.due - s.book.now, .heartbeat s.token⟩).map fun book =>
      { s with book, due := s.due + s.cadence }
  | .other moment =>
    if s.book.now + moment.delay ≤ s.due ∧ moment.action ≠ .heartbeat s.token ∧
        moment.action ≠ .close s.token then
      (sessions.step s.book moment).map fun book => { s with book }
    else none

/-- The server has the session and `expired` does not hold of it. -/
def Alive (s : Attached) : Prop :=
  ∃ entry, s.book.book.lookup s.token = some entry ∧ entry.expired s.book.now = false

instance (s : Attached) : Decidable s.Alive :=
  decidable_of_iff ((s.book.book.lookup s.token).any fun entry => !entry.expired s.book.now)
    (by simp [Alive, Option.any_eq_true])

end Attached

/-- A client attaches a session of lease `ttl` to a server in any state it can reach. -/
def attached (ttl maxTtl : Duration) : Machine Attached AttachedAction where
  initial s := ∃ before delay clientId, sessions.Reachable before ∧
    sessions.step before ⟨delay, .register s.token clientId
      (sessionTtl maxTtl (Client.sessionTtlMs ttl))⟩ = some s.book ∧
    s.cadence = Client.cadence ttl ∧ s.due = s.book.now + s.cadence
  step s action := s.act action

theorem SessionBook.mem_insert_of_found {book : SessionBook} {token name : String} {entry after : SessionEntry}
    (found : book.lookup name = some entry) (member : token ∈ book.insert name after) : token ∈ book := by
  obtain rfl | before := (AList.mem_insert _).mp member
  · exact AList.lookup_isSome.mp (found ▸ rfl)
  · exact before

namespace Sessions
variable {s t : Sessions} {action : SessionAction} {token : String}

theorem Moves.now (moved : s.Moves action t) : t.now = s.now := by
  cases moved <;> rfl

theorem Moves.issued (moved : s.Moves action t) : s.issued ⊆ t.issued := by
  cases moved with
  | register => exact List.subset_cons_self _ _
  | refused | heartbeat | bind | close | snapshot | retask | remove => exact List.Subset.refl _

/-- Sweeps list sessions that are expired at the time. -/
theorem Moves.pending (moved : s.Moves action t) {task : Task} (member : task ∈ t.tasks)
    (listed : token ∈ task.pending) :
    (∃ old ∈ s.tasks, token ∈ old.pending) ∨ token ∈ s.book.expired s.now := by
  cases moved with
  | register | refused | heartbeat | bind => exact .inl ⟨task, member, listed⟩
  | close =>
    obtain before | now := List.mem_append.mp member
    · exact .inl ⟨task, before, listed⟩
    · obtain rfl := List.mem_singleton.mp now
      simp [Task.pending] at listed
  | snapshot permuted =>
    obtain before | now := List.mem_append.mp member
    · exact .inl ⟨task, before, listed⟩
    · obtain rfl := List.mem_singleton.mp now
      exact .inr (permuted.mem_iff.mp listed)
  | retask running fewer => exact .inl (pending_set running fewer member listed)
  | remove running => exact .inl (pending_set running (List.subset_cons_self _ _) member listed)

theorem Moves.booked (moved : s.Moves action t) (booked : token ∈ t.book) :
    token ∈ s.book ∨ token ∈ t.issued := by
  cases moved with
  | register =>
    obtain rfl | before := AList.mem_insert _ |>.mp booked
    · exact .inr List.mem_cons_self
    · exact .inl before
  | heartbeat found => exact .inl (SessionBook.mem_insert_of_found found booked)
  | bind found => exact .inl (SessionBook.mem_insert_of_found found booked)
  | close | remove => exact .inl (AList.mem_erase.mp booked).2
  | refused | snapshot | retask => exact .inl booked

/-- What no sweep has listed and no one closes or sends a heartbeat for stays as it is, or
has a lock bound to it. -/
theorem Moves.lookup (moved : s.Moves action t) {entry : SessionEntry}
    (found : s.book.lookup token = some entry) (issued : token ∈ s.issued) (unlisted : s.Unlisted token)
    (silent : action ≠ .heartbeat token) (opened : action ≠ .close token) :
    ∃ after, t.book.lookup token = some after ∧ after.ttl = entry.ttl ∧ after.hbFloor = entry.hbFloor ∧
      (after.lastSeen = entry.lastSeen ∨ after.lastSeen = s.now) := by
  have same {book : SessionBook} (kept : book.lookup token = s.book.lookup token) :
      ∃ after, book.lookup token = some after ∧ after.ttl = entry.ttl ∧ after.hbFloor = entry.hbFloor ∧
        (after.lastSeen = entry.lastSeen ∨ after.lastSeen = s.now) :=
    ⟨entry, kept.trans found, rfl, rfl, .inl rfl⟩
  cases moved with
  | @register name _ _ fresh =>
    have other : token ≠ name := by
      rintro rfl
      exact fresh issued
    exact same (AList.lookup_insert_ne other)
  | @heartbeat name =>
    have other : token ≠ name := by
      rintro rfl
      exact silent rfl
    exact same (AList.lookup_insert_ne other)
  | @bind name _ _ _ stored =>
    by_cases bound : token = name
    · subst bound
      cases stored.symm.trans found
      exact ⟨_, AList.lookup_insert _, rfl, rfl, .inr rfl⟩
    · exact same (AList.lookup_insert_ne bound)
  | @close name =>
    have other : token ≠ name := by
      rintro rfl
      exact opened rfl
    exact same (AList.lookup_erase_ne other)
  | @remove _ name _ _ running =>
    have other : token ≠ name := by
      rintro rfl
      exact unlisted _ (List.mem_of_getElem? running) List.mem_cons_self
    exact same (AList.lookup_erase_ne other)
  | refused | snapshot | retask => exact same rfl

/-- Every session that the book has or a sweep has listed was issued. -/
structure Known (s : Sessions) : Prop where
  booked : ∀ token ∈ s.book, token ∈ s.issued
  pending : ∀ task ∈ s.tasks, ∀ token ∈ task.pending, token ∈ s.issued

theorem Known.act (known : s.Known) (stepped : s.act action = some t) : t.Known where
  booked token member := by
    obtain before | issued := (act_moves stepped).booked member
    · exact (act_moves stepped).issued (known.booked token before)
    · exact issued
  pending task member token listed := by
    apply (act_moves stepped).issued
    obtain ⟨old, before, listed⟩ | expired := (act_moves stepped).pending member listed
    · exact known.pending old before token listed
    · obtain ⟨entry, found, _⟩ := SessionBook.mem_expired.mp expired
      exact known.booked token (AList.lookup_isSome.mp (found ▸ rfl))

theorem known_of_reachable (reach : sessions.Reachable s) : s.Known := by
  refine reach.invariant ?_ fun s moment t known stepped => ?_
  · rintro s ⟨book, issued, tasks, _⟩
    exact ⟨by simp [book], by simp [tasks]⟩
  · exact Known.act (s := s.wait moment.delay) ⟨known.booked, known.pending⟩ stepped

end Sessions

namespace Attached
variable {s t : Attached} {ttl : Duration}

/-- The session was last seen no earlier than one cadence before its next heartbeat, which
the rate floor will let through. -/
structure Kept (ttl : Duration) (s : Attached) : Prop where
  issued : s.token ∈ s.book.issued
  unlisted : s.book.Unlisted s.token
  early : s.book.now ≤ s.due
  slept : s.due ≤ s.book.now + s.cadence
  found : ∃ entry, s.book.book.lookup s.token = some entry ∧ entry.ttl = ttl ∧
    s.due ≤ entry.lastSeen + s.cadence ∧ entry.hbFloor ≤ s.due

namespace Kept

theorem alive (kept : s.Kept ttl) (often : s.cadence < ttl.nanos) : s.Alive := by
  obtain ⟨entry, found, lease, seen, _⟩ := kept.found
  refine ⟨entry, found, Bool.eq_false_iff.mpr fun expired => ?_⟩
  have late := SessionEntry.expired_iff.mp expired
  have early := kept.early
  rw [lease] at late
  omega

theorem wait (kept : s.Kept ttl) {delay : Nat} (early : s.book.now + delay ≤ s.due) :
    Kept ttl { s with book := s.book.wait delay } where
  issued := kept.issued
  unlisted := kept.unlisted
  early := early
  slept := by
    have slept := kept.slept
    simp only [Sessions.wait]
    omega
  found := kept.found

/-- A step of the book that leaves the session unexpired does not list it. -/
theorem unlisted_after (kept : s.Kept ttl) (often : s.cadence < ttl.nanos) {action : SessionAction}
    {book : Sessions} (stepped : s.book.act action = some book) : book.Unlisted s.token := by
  intro task member listed
  obtain ⟨old, before, listed⟩ | expired := (Sessions.act_moves stepped).pending member listed
  · exact kept.unlisted old before listed
  · obtain ⟨entry, found, expired⟩ := SessionBook.mem_expired.mp expired
    obtain ⟨stored, same, fine⟩ := kept.alive often
    cases same.symm.trans found
    exact absurd expired (by rw [fine]; simp)

theorem other (kept : s.Kept ttl) (often : s.cadence < ttl.nanos) {action : SessionAction} {book : Sessions}
    (silent : action ≠ .heartbeat s.token) (opened : action ≠ .close s.token)
    (stepped : s.book.act action = some book) : Kept ttl { s with book } where
  issued := (Sessions.act_moves stepped).issued kept.issued
  unlisted := kept.unlisted_after often stepped
  early := by
    rw [(Sessions.act_moves stepped).now]
    exact kept.early
  slept := by
    rw [(Sessions.act_moves stepped).now]
    exact kept.slept
  found := by
    obtain ⟨entry, found, lease, seen, floor⟩ := kept.found
    obtain ⟨after, stored, same, floored, seenAfter⟩ :=
      (Sessions.act_moves stepped).lookup found kept.issued kept.unlisted silent opened
    refine ⟨after, stored, same.trans lease, ?_, floored ▸ floor⟩
    obtain unseen | now := seenAfter
    · rwa [unseen]
    · rw [now]
      exact kept.slept

/-- The heartbeat that is due is accepted. -/
theorem heartbeat (kept : s.Kept ttl) (often : s.cadence < ttl.nanos) (spaced : ttl.nanos / 20 ≤ s.cadence)
    {book : Sessions}
    (stepped : (s.book.wait (s.due - s.book.now)).act (.heartbeat s.token) = some book) :
    Kept ttl { s with book, due := s.due + s.cadence } := by
  have early := kept.early
  have awake : Kept ttl { s with book := s.book.wait (s.due - s.book.now) } := kept.wait (by omega)
  have now : (s.book.wait (s.due - s.book.now)).now = s.due := by
    simp only [Sessions.wait]
    omega
  have after : book.now = s.due := (Sessions.act_moves stepped).now.trans now
  obtain ⟨entry, found, lease, _, floor⟩ := awake.found
  have accepted : book.book.lookup s.token = some { entry with
      hbFloor := s.due + entry.ttl.nanos / 20
      lastSeen := s.due } := by
    have due : ¬ s.due < entry.hbFloor := Nat.not_lt.mpr floor
    simp only [Sessions.act, SessionBook.heartbeat, found, now, if_neg due] at stepped
    cases stepped
    exact AList.lookup_insert _
  exact {
    issued := (Sessions.act_moves stepped).issued kept.issued
    unlisted := awake.unlisted_after often stepped
    early := by rw [after]; exact Nat.le_add_right _ _
    slept := by rw [after]
    found := ⟨_, accepted, lease, Nat.le_refl _, by simp only [lease]; omega⟩ }

theorem act (kept : s.Kept ttl) (often : s.cadence < ttl.nanos) (spaced : ttl.nanos / 20 ≤ s.cadence)
    {action : AttachedAction} (stepped : s.act action = some t) : t.Kept ttl ∧ t.cadence = s.cadence := by
  cases action with
  | heartbeat =>
    simp only [Attached.act, Option.map_eq_some_iff] at stepped
    obtain ⟨book, stepped, rfl⟩ := stepped
    exact ⟨kept.heartbeat often spaced stepped, rfl⟩
  | other moment =>
    simp only [Attached.act, Option.ite_none_right_eq_some, Option.map_eq_some_iff] at stepped
    obtain ⟨⟨early, silent, opened⟩, book, stepped, rfl⟩ := stepped
    exact ⟨(kept.wait early).other often silent opened stepped, rfl⟩

theorem registered {before book : Sessions} {token clientId : String} {cadence : Nat} (known : before.Known)
    (stepped : before.act (.register token clientId ttl) = some book) :
    Kept ttl ⟨book, token, cadence, book.now + cadence⟩ := by
  obtain ⟨fresh, ⟨⟩⟩ := Option.ite_none_right_eq_some.mp stepped
  exact {
    issued := List.mem_cons_self
    unlisted := fun task member listed => fresh (known.pending task member token listed)
    early := Nat.le_add_right _ _
    slept := Nat.le_refl _
    found := ⟨_, AList.lookup_insert _, rfl, Nat.le_refl _, Nat.le_add_right _ _⟩ }

end Kept

end Attached

/-- A cadence below the lease keeps the session alive in every run, as long as it is not
so fast that the rate floor refuses heartbeats. -/
theorem attached_alive {ttl maxTtl : Duration} {s : Attached}
    (often : Client.cadence ttl < (sessionTtl maxTtl (Client.sessionTtlMs ttl)).nanos)
    (spaced : (sessionTtl maxTtl (Client.sessionTtlMs ttl)).nanos / 20 ≤ Client.cadence ttl)
    (reach : (attached ttl maxTtl).Reachable s) : s.Alive := by
  let Holds (s : Attached) : Prop :=
    s.Kept (sessionTtl maxTtl (Client.sessionTtlMs ttl)) ∧ s.cadence = Client.cadence ttl
  have holds : Holds s := by
    refine reach.invariant ?_ fun s action t kept stepped => ?_
    · rintro ⟨book, token, cadence, due⟩ ⟨before, delay, clientId, reach, stepped, paced, next⟩
      simp only at stepped paced next
      subst next
      have known := Sessions.known_of_reachable reach
      have waited : (before.wait delay).Known := ⟨known.booked, known.pending⟩
      exact ⟨.registered waited stepped, paced⟩
    · obtain ⟨kept, paced⟩ := kept
      obtain ⟨kept, same⟩ := kept.act (paced ▸ often) (paced ▸ spaced) stepped
      exact ⟨kept, same.trans paced⟩
  exact holds.1.alive (holds.2 ▸ often)

/-- The request asks for less than a millisecond; or its milliseconds, cut to 64 bits,
are more than 500 and more than cutting them took off by half, and the server's maximum is
more than 500 ms and more than a third of what the client meant. -/
def Compatible (ttl maxTtl : Duration) : Prop :=
  ttl.asMillis = 0 ∨
    500 < ttl.asMillisU64 ∧ ttl.asMillis / 2 ^ 64 * 2 ^ 63 < ttl.asMillisU64 ∧
      (Duration.fromMillis 500).nanos < maxTtl.nanos ∧ ttl.nanos / 3 < maxTtl.nanos

theorem sessionTtlMs_toNat (ttl : Duration) : (Client.sessionTtlMs ttl).toNat = ttl.asMillisU64 :=
  UInt64.toNat_ofNat

theorem sessionTtl_nanos (ttl maxTtl : Duration) :
    (sessionTtl maxTtl (Client.sessionTtlMs ttl)).nanos =
      if ttl.asMillisU64 = 0 then 10 ^ 10 else min (ttl.asMillisU64 * 10 ^ 6) maxTtl.nanos := by
  have zero : Client.sessionTtlMs ttl = 0 ↔ ttl.asMillisU64 = 0 := by
    rw [← sessionTtlMs_toNat, ← UInt64.toNat_inj]
    rfl
  simp only [sessionTtl, zero]
  split
  · rfl
  · split
    · next fits =>
      simp only [Duration.fromMillis, sessionTtlMs_toNat] at fits ⊢
      omega
    · next exceeds =>
      simp only [Duration.fromMillis, sessionTtlMs_toNat] at exceeds
      omega

/-- The rate floor is no obstacle to the client's cadence. -/
theorem floor_le_cadence (ttl maxTtl : Duration) :
    (sessionTtl maxTtl (Client.sessionTtlMs ttl)).nanos / 20 ≤ Client.cadence ttl := by
  have least : (Duration.fromMillis 500).nanos = 5 * 10 ^ 8 := rfl
  rw [sessionTtl_nanos, Client.cadence, least]
  have cut : ttl.asMillisU64 * 10 ^ 6 ≤ ttl.nanos :=
    (Nat.mul_le_mul_right _ (Nat.mod_le _ _)).trans (Nat.div_mul_le_self _ _)
  split <;> omega

theorem cadence_lt_iff (ttl maxTtl : Duration) :
    Client.cadence ttl < (sessionTtl maxTtl (Client.sessionTtlMs ttl)).nanos ↔ Compatible ttl maxTtl := by
  have least : (Duration.fromMillis 500).nanos = 5 * 10 ^ 8 := rfl
  have whole : ttl.nanos / 10 ^ 6 = ttl.asMillis := rfl
  have cut : ttl.asMillisU64 = ttl.asMillis % 2 ^ 64 := rfl
  rw [sessionTtl_nanos, Client.cadence, Compatible, least]
  by_cases zero : ttl.asMillisU64 = 0
  · rw [if_pos zero]
    omega
  · rw [if_neg zero]
    omega

/-- The cadence of the client is below the lease that the server enforces, and a client
that follows it is never expired. -/
theorem cadence_keeps_alive_iff (ttl maxTtl : Duration) :
    (Client.cadence ttl < (sessionTtl maxTtl (Client.sessionTtlMs ttl)).nanos ∧
      ∀ s, (attached ttl maxTtl).Reachable s → s.Alive) ↔ Compatible ttl maxTtl := by
  constructor
  · rintro ⟨often, _⟩
    exact (cadence_lt_iff ttl maxTtl).mp often
  · intro compatible
    have often := (cadence_lt_iff ttl maxTtl).mpr compatible
    exact ⟨often, fun s reach => attached_alive often (floor_le_cadence ttl maxTtl) reach⟩

/-- A session of 300 ms is expired at 400 ms, before its first heartbeat is due. -/
theorem short_session_expires : ¬ ∀ ttl maxTtl : Duration,
    Client.cadence ttl < (sessionTtl maxTtl (Client.sessionTtlMs ttl)).nanos ∧
      ∀ s, (attached ttl maxTtl).Reachable s → s.Alive := by
  intro alive
  let registered : Attached := ⟨{ Sessions.fresh with
      book := SessionBook.register ∅ 0 "s" "client" (.fromMillis 300)
      issued := ["s"] }, "s", 500000000, 500000000⟩
  have granted : sessionTtl (.fromMillis 600000) (Client.sessionTtlMs (.fromMillis 300)) = .fromMillis 300 := by
    decide
  have start : (attached (.fromMillis 300) (.fromMillis 600000)).initial registered :=
    ⟨.fresh, 0, "client", .initial Sessions.fresh_initial, by rw [granted]; rfl, by decide, by decide⟩
  obtain ⟨s, reach, dead⟩ := Machine.exists_reachableWhen (fun _ _ => True)
    (fun s : Attached => ¬ s.Alive) start [.other ⟨400000000, .snapshot ["s"]⟩] (by decide)
  exact dead ((alive (.fromMillis 300) (.fromMillis 600000)).2 s reach)

end Server

end Palisade
