import Palisade.ReadWrite.Handles

/-! Exclusion against each reader's own lease. All readers share the expiry of
the hash, and joining, leaving and extending rewrite it; a reader's lease is
kept in the runs where no such rewrite ends before it. -/
namespace Palisade.ReadWrite
open Redis Single Lease Transition

/-- No write grant inside an unreleased reader's lease, and no read grant inside
an unreleased writer's. -/
def RwLock.Excludes (key : String) (s : RwLock) : Prop :=
  ∀ now, s.now ≤ now →
    (∀ reader term, s.leases reader = some (.reader, term) → now < term.ends →
      ∀ writer ttl status fence,
        (((Command.writeAcquire ttl).script key writer).exec now s.db).1 = .ok (status, fence) →
          status = 0) ∧
    ∀ writer term, s.leases writer = some (.writer, term) → now < term.ends →
      ∀ reader ttl status fence,
        (((Command.readAcquire ttl).script key reader).exec now s.db).1 = .ok (status, fence) →
          status = 0

/-- The leases of everybody but `token` end within `ms` of `now`. -/
def Leases.Within (leases : Leases) (token : String) (now ms : Nat) : Prop :=
  ∀ other ≠ token, ∀ term, leases other = some (.reader, term) → term.ends ≤ now + ms

/-- A script that rewrites the expiry of a hash of readers does not end it before
the lease of another reader, and only a registered reader extends it. -/
def Fits (key : String) (db : Keyspace) (leases : Leases) (now : Nat) (token : String)
    (command : Command) : Prop :=
  ∀ fields stop, Reading key db now fields stop → match command with
    | .readAcquire ms => ¬ Registered fields token → leases.Within token now ms
    | .readRelease ms => Registered fields token → leases.Within token now ms
    | .extend ms => Registered fields token ∧ leases.Within token now ms
    | .writeAcquire _ | .writeRelease => True

def Orderly (key : String) (s : RwLock) : Timed → Prop
  | ⟨delay, .run ⟨token, command⟩⟩ => Fits key s.db s.leases (s.now + delay) token command
  | _ => True

def Kind.Holds (fields : Hash) (token : String) : Kind → Prop
  | .reader => ReadMode fields ∧ Registered fields token
  | .writer => WriteMode fields token

/-- The entry carries the hold of a token at least until `bound`. -/
def Carries (entry : Option Entry) (kind : Kind) (token : String) (bound : Nat) : Prop :=
  ∃ fields stop, entry = some ⟨.hash fields, some stop⟩ ∧ kind.Holds fields token ∧ bound ≤ stop

/-- Nobody but `token` has a hold at `now`. -/
def Alone (key : String) (db : Keyspace) (now : Nat) (token : String) : Prop :=
  ∀ (other : String) (kind : Kind) (fields : Hash) (stop : Nat),
    db.lookup now key = some ⟨.hash fields, some stop⟩ → kind.Holds fields other → other = token

/-- The hash backs every lease in the ledger, and the ledger knows everybody in
the hash. -/
structure Backed (key : String) (now : Nat) (db : Keyspace) (leases : Leases) : Prop where
  sound : Sound key db
  registered : ∀ fields stop token, db key = some ⟨.hash fields, stop⟩ → Registered fields token →
    ∃ term, leases token = some (.reader, term)
  owned : ∀ fields stop owner, db key = some ⟨.hash fields, stop⟩ → WriteMode fields owner →
    ∃ term, leases owner = some (.writer, term)
  backed : ∀ token kind term, leases token = some (kind, term) →
    term.ends ≤ now ∨ Carries (db key) kind token term.ends

section
variable {key token owner other : String} {db : Keyspace} {now stop ms bound : Nat} {fields next : Hash}
  {kind : Kind} {leases : Leases}

theorem WriteMode.not_readMode (writes : WriteMode fields owner) : ¬ ReadMode fields := by
  intro reads
  have clash := writes.mode.symm.trans reads.mode
  simp at clash

theorem Kind.Holds.reading (holds : kind.Holds fields other) (reads : ReadMode fields) :
    kind = .reader ∧ Registered fields other := by
  cases kind with
  | reader => exact ⟨rfl, holds.2⟩
  | writer => exact absurd reads holds.not_readMode

theorem Kind.Holds.writing (holds : kind.Holds fields other) (writes : WriteMode fields owner) :
    kind = .writer ∧ other = owner := by
  cases kind with
  | reader => exact absurd holds.1 writes.not_readMode
  | writer => exact ⟨rfl, by simpa using holds.owner.symm.trans writes.owner⟩

theorem fields_refreshed {fields : Hash} {stop : Option Nat}
    (stored : refreshed now next ms = some ⟨.hash fields, stop⟩) : fields = next := by
  obtain ⟨_, same⟩ := refreshed_eq_some.mp stored
  cases same
  rfl

/-- A refreshed hash carries a hold for as long as it was refreshed. -/
theorem carries_refreshed (holds : kind.Holds next token) (bounded : bound ≤ now + ms) :
    bound ≤ now ∨ Carries (refreshed now next ms) kind token bound := by
  by_cases zero : ms = 0
  · exact .inl (by omega)
  · exact .inr ⟨next, now + ms, refreshed_eq_some.mpr ⟨zero, rfl⟩, holds, bounded⟩

/-- A lease still running is carried by what the scripts see at `now`. -/
theorem Backed.live (backed : Backed key now db leases) (held : leases token = some (kind, term)) :
    term.ends ≤ now ∨ ∃ fields stop, db.lookup now key = some ⟨.hash fields, some stop⟩ ∧
      kind.Holds fields token ∧ term.ends ≤ stop := by
  rcases backed.backed token kind term held with elapsed | ⟨fields, stop, stored, holds, bounded⟩
  · exact .inl elapsed
  · by_cases expired : stop ≤ now
    · exact .inl (Nat.le_trans bounded expired)
    · refine .inr ⟨fields, stop, Keyspace.lookup_eq_some.mpr ⟨stored, ?_⟩, holds, bounded⟩
      simpa using expired

theorem Backed.later (backed : Backed key now db leases) (later : now ≤ instant) :
    Backed key instant db leases :=
  ⟨backed.sound, backed.registered, backed.owned, fun token kind term held =>
    (backed.backed token kind term held).imp_left fun elapsed => Nat.le_trans elapsed later⟩

/-- A script that changes the entry of one token and keeps the holds of the others. -/
theorem Backed.update (backed : Backed key now db leases) {after : Keyspace} (sound : Sound key after)
    {lease : Option (Kind × Term)}
    (registered : ∀ fields stop other, after key = some ⟨.hash fields, stop⟩ → Registered fields other →
      (other = token ∧ ∃ term, lease = some (.reader, term)) ∨ other ≠ token ∧
        ∃ before last, db key = some ⟨.hash before, last⟩ ∧ Registered before other)
    (owned : ∀ fields stop owner, after key = some ⟨.hash fields, stop⟩ → WriteMode fields owner →
      owner = token ∧ ∃ term, lease = some (.writer, term))
    (own : ∀ kind term, lease = some (kind, term) →
      term.ends ≤ now ∨ Carries (after key) kind token term.ends)
    (others : ∀ other ≠ token, ∀ kind term fields stop, leases other = some (kind, term) →
      db.lookup now key = some ⟨.hash fields, some stop⟩ → kind.Holds fields other →
      term.ends ≤ now ∨ Carries (after key) kind other term.ends) :
    Backed key now after (Function.update leases token lease) := by
  refine ⟨sound, ?_, ?_, ?_⟩
  · intro fields stop other stored member
    rcases registered fields stop other stored member with ⟨rfl, given⟩ | ⟨distinct, before, last, old, member⟩
    · rwa [Function.update_self]
    · rw [Function.update_of_ne distinct]
      exact backed.registered before last other old member
  · intro fields stop owner stored writes
    obtain ⟨rfl, given⟩ := owned fields stop owner stored writes
    rwa [Function.update_self]
  · intro other kind term held
    rcases update_eq_some held with ⟨rfl, given⟩ | ⟨distinct, held⟩
    · exact own kind term given
    · rcases backed.live held with elapsed | ⟨fields, stop, found, holds, _⟩
      · exact .inl elapsed
      · exact others other distinct kind term fields stop held found holds

/-- The same where the script refreshes the hash of readers. -/
theorem Backed.refreshReaders (backed : Backed key now db leases) {after : Keyspace}
    (sound : Sound key after) {lease : Option (Kind × Term)}
    (stored : after key = refreshed now next ms) (reads : ReadMode next)
    (registers : ∀ other, Registered next other →
      (other = token ∧ ∃ term, lease = some (.reader, term)) ∨ other ≠ token ∧
        ∃ before last, db key = some ⟨.hash before, last⟩ ∧ Registered before other)
    (own : ∀ kind term, lease = some (kind, term) →
      kind = .reader ∧ Registered next token ∧ term.ends ≤ now + ms)
    (others : ∀ other ≠ token, ∀ kind term fields stop, leases other = some (kind, term) →
      db.lookup now key = some ⟨.hash fields, some stop⟩ → kind.Holds fields other →
      kind = .reader ∧ Registered next other ∧ term.ends ≤ now + ms) :
    Backed key now after (Function.update leases token lease) := by
  have entry {fields : Hash} {stop : Option Nat} (same : after key = some ⟨.hash fields, stop⟩) :
      fields = next := fields_refreshed (stored.symm.trans same)
  apply backed.update sound
  · intro fields stop other same member
    exact registers other (entry same ▸ member)
  · intro fields stop owner same writes
    exact absurd (entry same ▸ reads) writes.not_readMode
  · intro kind term given
    obtain ⟨rfl, member, bounded⟩ := own kind term given
    exact stored ▸ carries_refreshed (⟨reads, member⟩ : Kind.reader.Holds next _) bounded
  · intro other distinct kind term fields stop held found holds
    obtain ⟨rfl, member, bounded⟩ := others other distinct kind term fields stop held found holds
    exact stored ▸ carries_refreshed (⟨reads, member⟩ : Kind.reader.Holds next _) bounded

/-- The same where nobody but the writer was in the hash. -/
theorem Backed.refreshWriter (backed : Backed key now db leases) {after : Keyspace}
    (sound : Sound key after) (stored : after key = refreshed now next ms)
    (writes : WriteMode next token)
    (alone : Alone key db now token) :
    Backed key now after (Function.update leases token (some (.writer, ⟨now, ms⟩))) := by
  have entry {fields : Hash} {stop : Option Nat} (same : after key = some ⟨.hash fields, stop⟩) :
      fields = next := fields_refreshed (stored.symm.trans same)
  apply backed.update sound
  · intro fields stop other same member
    have populated := population_pos member
    rw [entry same, writes.empty] at populated
    contradiction
  · intro fields stop owner same owns
    rw [entry same] at owns
    exact ⟨by simpa using owns.owner.symm.trans writes.owner, _, rfl⟩
  · rintro kind term ⟨⟩
    exact stored ▸ carries_refreshed (writes : Kind.writer.Holds next token) le_rfl
  · intro other distinct kind term fields stop _ found holds
    exact absurd (alone other kind fields stop found holds) distinct

/-- The same where the script deletes the hash. -/
theorem Backed.delete (backed : Backed key now db leases) {after : Keyspace}
    (sound : Sound key after) (deleted : after key = none)
    (alone : Alone key db now token) :
    Backed key now after (Function.update leases token none) := by
  apply backed.update sound (by simp [deleted]) (by simp [deleted]) (by simp)
  intro other distinct kind term fields stop _ found holds
  exact absurd (alone other kind fields stop found holds) distinct

theorem alone_absent (absent : Absent key db now) : Alone key db now token := by
  intro other kind fields stop found
  cases absent.symm.trans found

theorem alone_writing (writing : Writing key db now fields token stop) : Alone key db now token := by
  intro other kind fields stop found holds
  cases Option.some.inj (found.symm.trans writing.1)
  exact (holds.writing writing.2).2

theorem alone_last (reading : Reading key db now fields stop) (member : Registered fields token)
    (single : population fields = 1) : Alone key db now token := by
  intro other kind fields stop found holds
  cases Option.some.inj (found.symm.trans reading.1)
  by_contra distinct
  have several := (one_lt_population member).mpr ⟨other, distinct, (holds.reading reading.2).2⟩
  omega

/-- Among readers, another one's lease ends within the refresh. -/
theorem Leases.Within.reader (within : leases.Within token now ms)
    (reading : Reading key db now fields stop) (distinct : other ≠ token)
    (held : leases other = some (kind, term))
    (found : db.lookup now key = some ⟨.hash others, some last⟩) (holds : kind.Holds others other) :
    kind = .reader ∧ Registered fields other ∧ term.ends ≤ now + ms := by
  cases Option.some.inj (found.symm.trans reading.1)
  obtain ⟨rfl, member⟩ := holds.reading reading.2
  exact ⟨rfl, member, within other distinct term held⟩

theorem Backed.run (backed : Backed key now db leases) {command : Command} {status fence : Int}
    {after : Keyspace} (fits : Fits key db leases now token command)
    (effect : Effect key db now token command status (after key)) (counts : Counts key after) :
    Backed key now after (leases.record now token command (.ok (status, fence))) := by
  have sound := effect.sound backed.sound counts
  generalize entry : after key = left at effect
  cases effect with
  | enter absent shape registers =>
    apply backed.refreshReaders sound entry shape
    · exact fun other member => .inl ⟨(registers other).mp member, _, rfl⟩
    · rintro kind term ⟨⟩
      exact ⟨rfl, (registers token).mpr rfl, le_rfl⟩
    · intro other distinct kind term fields stop _ found holds
      exact absurd (alone_absent absent other kind fields stop found holds) distinct
  | join reading fresh shape registers =>
    apply backed.refreshReaders sound entry shape
    · intro other member
      rcases (registers other).mp member with rfl | before
      · exact .inl ⟨rfl, _, rfl⟩
      · refine .inr ⟨?_, _, _, (Keyspace.lookup_eq_some.mp reading.1).1, before⟩
        exact fun same => fresh (same ▸ before)
    · rintro kind term ⟨⟩
      exact ⟨rfl, (registers token).mpr (.inl rfl), le_rfl⟩
    · intro other distinct kind term fields stop held found holds
      obtain ⟨reader, member, bounded⟩ := (fits _ _ reading fresh).reader reading distinct held found holds
      exact ⟨reader, (registers other).mpr (.inr member), bounded⟩
  | @leave before _ _ _ reading member others shape registers =>
    have positive : (0 : Int) ≤ population before - 1 := by omega
    simp only [Leases.record, if_pos positive]
    refine backed.refreshReaders sound entry shape ?_ (by simp) ?_
    · intro other present
      obtain ⟨distinct, before⟩ := (registers other).mp present
      exact .inr ⟨distinct, _, _, (Keyspace.lookup_eq_some.mp reading.1).1, before⟩
    · intro other distinct kind term fields stop held found holds
      obtain ⟨reader, present, bounded⟩ := (fits _ _ reading member).reader reading distinct held found holds
      exact ⟨reader, (registers other).mpr ⟨distinct, present⟩, bounded⟩
  | last reading member single => exact backed.delete sound entry (alone_last reading member single)
  | take absent shape => exact backed.refreshWriter sound entry shape (alone_absent absent)
  | retake writing => exact backed.refreshWriter sound entry writing.2 (alone_writing writing)
  | yield writing => exact backed.delete sound entry (alone_writing writing)
  | renewShared reading =>
    obtain ⟨member, within⟩ := fits _ _ reading
    have stored := (Keyspace.lookup_eq_some.mp reading.1).1
    obtain ⟨old, held⟩ := backed.registered _ _ token stored member
    simp only [Leases.record, held, Option.map_some]
    apply backed.refreshReaders sound entry reading.2
    · intro other present
      by_cases same : other = token
      · exact .inl ⟨same, _, rfl⟩
      · exact .inr ⟨same, _, _, stored, present⟩
    · rintro kind term ⟨⟩
      exact ⟨rfl, member, le_rfl⟩
    · intro other distinct kind term fields stop held found holds
      exact within.reader reading distinct held found holds
  | renew writing =>
    obtain ⟨old, held⟩ := backed.owned _ _ token (Keyspace.lookup_eq_some.mp writing.1).1 writing.2
    simp only [Leases.record, held, Option.map_some]
    exact backed.refreshWriter sound entry writing.2 (alone_writing writing)
  | deny denied =>
    have same : leases.record now token command (.ok (command.denial, fence)) = leases := by
      cases command <;> rfl
    rw [same]
    refine ⟨sound, ?_, ?_, ?_⟩
    · exact fun fields stop other stored => backed.registered fields stop other (entry ▸ stored)
    · exact fun fields stop owner stored => backed.owned fields stop owner (entry ▸ stored)
    · exact fun other kind term held => entry ▸ backed.backed other kind term held

/-- A hold that is still backed keeps out whoever it excludes. -/
theorem Backed.excludes (backed : Backed key now db leases) :
    (∀ reader term, leases reader = some (.reader, term) → now < term.ends →
      ∀ writer ttl, ((Command.writeAcquire ttl).script key writer).exec now db = (.ok (0, 0), db)) ∧
    ∀ writer term, leases writer = some (.writer, term) → now < term.ends →
      ∀ reader ttl, ((Command.readAcquire ttl).script key reader).exec now db = (.ok (0, 0), db) := by
  constructor
  · intro reader term held running writer ttl
    rcases backed.live held with elapsed | ⟨fields, stop, found, holds, _⟩
    · omega
    · exact exec_writeAcquire_denied (.inl ⟨fields, stop, found, holds.1⟩)
  · intro writer term held running reader ttl
    rcases backed.live held with elapsed | ⟨fields, stop, found, holds, _⟩
    · omega
    · exact exec_readAcquire_denied (.inr ⟨fields, writer, stop, found, holds⟩)

end

theorem RwLock.backed_reachable {s : RwLock} (reach : (rwlock key).ReachableWhen (Orderly key) s) :
    Backed key s.now s.db s.leases := by
  refine Machine.ReachableWhen.invariant (P := fun s : RwLock => Backed key s.now s.db s.leases)
    ?_ ?_ reach
  · rintro s ⟨lock, counter, _, _, _, leases⟩
    exact ⟨⟨by simp [lock], by simp [Counts, counter]⟩, by simp [lock], by simp [lock], by simp [leases]⟩
  · rintro s ⟨delay, action⟩ t backed orderly stepped
    have waited := backed.later (Nat.le_add_right s.now delay)
    rcases RwLock.act_cases stepped with ⟨⟨token, command⟩, _, rfl, rfl⟩ | ⟨token, c, sent, rfl, _⟩
    · obtain ⟨status, fence, after, ran, effect, counts⟩ :=
        backed.sound.answers (s.now + delay) token command
      simp only [RwLock.run, RwLock.wait, ran]
      exact waited.run orderly effect counts
    · exact waited

/-- Reads and writes exclude each other over the whole of every lease in the runs
where no rewrite of the shared expiry ends another reader's lease early and
only registered readers extend the readers' hash. -/
theorem leases_exclude {s : RwLock} (reach : (rwlock key).ReachableWhen (Orderly key) s) :
    s.Excludes key := by
  intro now later
  obtain ⟨readers, writers⟩ := ((RwLock.backed_reachable reach).later later).excludes
  constructor
  · intro reader term held running writer ttl status fence answered
    rw [readers reader term held running writer ttl] at answered
    cases answered
    rfl
  · intro writer term held running reader ttl status fence answered
    rw [writers writer term held running reader ttl] at answered
    cases answered
    rfl

/-- No script shortens the shared expiry, and only registered readers extend it. -/
def Lengthening (key : String) (s : RwLock) : Timed → Prop
  | ⟨delay, .run ⟨token, command⟩⟩ => match s.db.lookup (s.now + delay) key with
    | some ⟨.hash fields, some stop⟩ => match command with
      | .readAcquire ms | .readRelease ms => stop ≤ s.now + delay + ms
      | .extend ms => Registered fields token ∧ stop ≤ s.now + delay + ms
      | .writeAcquire _ | .writeRelease => True
    | _ => True
  | _ => True

instance (fields : Hash) (token : String) : Decidable (Registered fields token) :=
  inferInstanceAs (Decidable (readerField token ∈ fields))

instance (key : String) (s : RwLock) (timed : Timed) : Decidable (Lengthening key s timed) := by
  unfold Lengthening
  repeat' split
  all_goals infer_instance

theorem Backed.within {key : String} {now stop ms : Nat} {db : Keyspace} {leases : Leases} {fields : Hash}
    (backed : Backed key now db leases) (reading : Reading key db now fields stop) (longer : stop ≤ now + ms)
    (token : String) : leases.Within token now ms := by
  intro other _ term held
  rcases backed.live held with elapsed | ⟨_, last, found, _, bounded⟩
  · omega
  · cases Option.some.inj (reading.1.symm.trans found)
    omega

theorem Lengthening.orderly {key : String} {s : RwLock} {timed : Timed} (backed : Backed key s.now s.db s.leases)
    (longer : Lengthening key s timed) : Orderly key s timed := by
  obtain ⟨delay, action⟩ := timed
  cases action with
  | run request =>
    obtain ⟨token, command⟩ := request
    intro fields stop reading
    have within {ms : Nat} (longer : stop ≤ s.now + delay + ms) : s.leases.Within token (s.now + delay) ms :=
      (backed.later (Nat.le_add_right s.now delay)).within reading longer token
    simp only [Lengthening, reading.1] at longer
    cases command with
    | readAcquire | readRelease => exact fun _ => within longer
    | extend => exact ⟨longer.1, within longer.2⟩
    | writeAcquire | writeRelease => trivial
  | ask | answer | extend | extended | release | drop => trivial

/-- Every lease is carried by the shared expiry, so that a run that never shortens it ends none early. -/
theorem RwLock.reachable_orderly {key : String} {s : RwLock} (reach : (rwlock key).ReachableWhen (Lengthening key) s) :
    (rwlock key).ReachableWhen (Orderly key) s := by
  induction reach with
  | initial start => exact .initial start
  | next _ longer stepped ih => exact .next ih (longer.orderly (backed_reachable ih)) stepped

/-- Reader `b` joins reader `a` and leaves again, and the lease of `a` still keeps writers out. -/
theorem two_readers_exclude : ∃ s : RwLock, s.Excludes "cfg" ∧ s.now = 200 ∧
    s.leases "a" = some (.reader, ⟨0, 1000⟩) ∧ s.leases "b" = none := by
  obtain ⟨s, reach, facts⟩ := Machine.exists_reachableWhen (Lengthening "cfg")
    (fun s : RwLock => s.now = 200 ∧ s.leases "a" = some (.reader, ⟨0, 1000⟩) ∧ s.leases "b" = none)
    (RwLock.fresh_initial "cfg")
    (served "a" false 1000 0 ++ served "b" false 2000 100 ++
      [⟨100, .release "b"⟩, ⟨0, .run ⟨"b", .readRelease 2000⟩⟩])
    (by decide +kernel)
  exact ⟨s, leases_exclude (RwLock.reachable_orderly reach), facts⟩

/-- Readers `a` and `b` hold for a minute each. The handle of `b` is dropped, its
detached release deletes the hash, and a writer is granted inside the lease of `a`. -/
theorem dropped_reader_admits_writer : ¬ ∀ s, (rwlock "cfg").Reachable s → s.Excludes "cfg" := by
  intro always
  obtain ⟨s, reach, now, held, granted⟩ := Machine.exists_reachableWhen (fun _ _ => True)
    (fun s : RwLock => s.now = 1 ∧ s.leases "a" = some (.reader, ⟨0, 60000⟩) ∧
      (((Command.writeAcquire 1000).script "cfg" "w").exec 1 s.db).1 = .ok (1, 3))
    (RwLock.fresh_initial "cfg")
    (served "a" false 60000 0 ++ served "b" false 60000 0 ++
      [⟨1, .drop "b"⟩, ⟨0, .run ⟨"b", .readRelease 0⟩⟩])
    (by decide)
  exact absurd ((always s reach 1 now.le).1 "a" _ held (by decide) "w" 1000 1 3 granted) (by decide)

end Palisade.ReadWrite
