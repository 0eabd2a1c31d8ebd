import Palisade.ReadWrite.Handles

/-! What one operation of a handle does in any reachable state: a reader leaving
by `release` or by being dropped, and an extension by any handle. -/
namespace Palisade.ReadWrite
open Redis Single Transition

def RegisteredAt (key : String) (db : Keyspace) (now : Nat) (token : String) : Prop :=
  ∃ fields stop, Reading key db now fields stop ∧ Registered fields token

section
variable {key token : String} {db after : Keyspace} {now stop : Nat} {fields : Hash}

theorem Reading.registeredAt (reading : Reading key db now fields stop) :
    RegisteredAt key db now token ↔ Registered fields token := by
  constructor
  · rintro ⟨other, last, ⟨found, _⟩, member⟩
    cases Option.some.inj (found.symm.trans reading.1)
    exact member
  · exact fun member => ⟨fields, stop, reading, member⟩

theorem Absent.registeredAt (absent : Absent key db now) : ¬ RegisteredAt key db now token := by
  rintro ⟨fields, stop, ⟨found, _⟩, _⟩
  cases absent.symm.trans found

theorem Writing.not_reading (writing : Writing key db now fields owner stop) :
    ¬ Reading key db now others last := by
  rintro ⟨found, shape⟩
  cases Option.some.inj (found.symm.trans writing.1)
  have clash := shape.mode.symm.trans writing.2.mode
  simp at clash

theorem Writing.registeredAt (writing : Writing key db now fields owner stop) :
    ¬ RegisteredAt key db now token := by
  rintro ⟨others, last, reading, _⟩
  exact writing.not_reading reading

end

/-! Leaving. -/

inductive Departure where
  | release
  | drop

/-- The store after a reader left. -/
def RwShared.depart (h : RwShared) (now : Nat) (db : Keyspace) : Departure → Keyspace
  | .release => (h.release now db).2.2
  | .drop => (h.drop now db).2

/-- Exactly the other readers stay registered, and while there are any the hash
lives on and no writer is let in. -/
def KeepsOthers (key reader : String) (now : Nat) (db after : Keyspace) : Prop :=
  (∀ token, RegisteredAt key after now token ↔ token ≠ reader ∧ RegisteredAt key db now token) ∧
  ((∃ token ≠ reader, RegisteredAt key db now token) →
    (∃ fields stop, Reading key after now fields stop ∧ now < stop) ∧
    ∀ writer ttl, ((Command.writeAcquire ttl).script key writer).exec now after = (.ok (0, 0), after))

section
variable {key token : String} {db : Keyspace} {now stop ms : Nat} {fields : Hash}

theorem keepsOthers_alone (reading : Reading key db now fields stop)
    (alone : ∀ other, Registered fields other → other = token) :
    KeepsOthers key token now db (db.erase key) := by
  have others : ¬ ∃ other ≠ token, RegisteredAt key db now other := by
    rintro ⟨other, distinct, member⟩
    exact distinct (alone other (reading.registeredAt.mp member))
  refine ⟨fun other => ?_, fun some => absurd some others⟩
  have gone : ¬ RegisteredAt key (db.erase key) now other :=
    Absent.registeredAt Keyspace.lookup_erase_self
  exact iff_of_false gone fun member => others ⟨other, member⟩

theorem keepsOthers_refresh (reading : Reading key db now fields stop)
    (member : Registered fields token) (others : 1 < population fields) (positive : ms ≠ 0) :
    KeepsOthers key token now db (db.refresh now key (.hash (departed fields token)) ms) := by
  obtain ⟨shape, registers⟩ := departed_spec reading.2 member others
  have after : Reading key (db.refresh now key (.hash (departed fields token)) ms) now
      (departed fields token) (now + ms) := by
    refine ⟨?_, shape⟩
    rw [Keyspace.lookup_refresh (Nat.le_refl now), if_pos (by omega)]
  refine ⟨fun other => ?_, fun _ => ⟨⟨_, _, after, by omega⟩, ?_⟩⟩
  · rw [after.registeredAt, reading.registeredAt, registers]
  · exact fun writer ttl => exec_writeAcquire_denied (.inl ⟨_, _, after⟩)

theorem not_keepsOthers_erase (reading : Reading key db now fields stop)
    (member : Registered fields other) (distinct : other ≠ token) :
    ¬ KeepsOthers key token now db (db.erase key) := by
  rintro ⟨_, lives⟩
  obtain ⟨⟨left, last, ⟨found, _⟩, _⟩, _⟩ := lives ⟨other, distinct, reading.registeredAt.mpr member⟩
  simp at found

end

/-- A registered reader of which nothing is sent stays. -/
theorem not_keepsOthers_stay (member : RegisteredAt key db now token) : ¬ KeepsOthers key token now db db :=
  fun ⟨left, _⟩ => ((left token).mp member).1 rfl

theorem RwShared.depart_gone {h : RwShared} (gone : h.gone = true) (now : Nat) (db : Keyspace) (departure : Departure) :
    h.depart now db departure = db := by
  cases departure with
  | release => simp only [depart, release, gone, if_true]
  | drop => simp only [depart, drop, gone, if_true]

theorem RwShared.depart_eq {h : RwShared} (fresh : h.gone = false) (reader : h.writeMode = false)
    (now : Nat) (db : Keyspace) (departure : Departure) : h.depart now db departure =
      ((readRelease h.key h.token
        (match departure with
          | .release => h.ttl.asMillisU64
          | .drop => 0)).exec now db).2 := by
  cases departure with
  | release => simp only [depart, release, fresh, releaseRequest, reader, Command.script,
      Bool.false_eq_true, if_false, Script.state_bind_pure]
  | drop => simp only [depart, drop, fresh, dropRequest, reader, Command.script,
      Bool.false_eq_true, if_false, Script.state_bind_pure]

/-- One reader leaving takes it alone away exactly when its handle has not left before, and it is
released or there are no others: a handle that has left sends nothing, even where its first request
failed, and a drop passes a refresh of zero, which deletes the hash. -/
theorem reader_leaves_others_iff {s : RwLock} (reach : (rwlock key).Reachable s)
    (held : s.callers reader = some (.holding h)) (shared : h.writeMode = false)
    (reading : Reading key s.db now fields stop) (member : Registered fields reader) (departure : Departure) :
    KeepsOthers key reader now s.db (h.depart now s.db departure) ↔
      h.gone = false ∧ (departure = .release ∨ ∀ other, Registered fields other → other = reader) := by
  have inv := RwLock.inv_reachable reach
  obtain ⟨rfl, rfl⟩ := inv.named reader h held
  by_cases gone : h.gone = true
  · rw [RwShared.depart_gone gone]
    exact iff_of_false (not_keepsOthers_stay (reading.registeredAt.mpr member)) (by simp [gone])
  have fresh : h.gone = false := by simpa using gone
  rw [RwShared.depart_eq fresh shared, and_iff_right fresh]
  by_cases others : 1 < population fields
  · obtain ⟨other, distinct, present⟩ := (one_lt_population member).mp others
    have crowded : ¬ ∀ other, Registered fields other → other = h.token :=
      fun alone => distinct (alone other present)
    rw [exec_readRelease_leave reading member others]
    cases departure with
    | release =>
      obtain ⟨c, called, positive⟩ := inv.enrolled fields _ h.token
        (Keyspace.lookup_eq_some.mp reading.1).1 member
      cases Option.some.inj (held.symm.trans called)
      exact iff_of_true (keepsOthers_refresh reading member others positive) (.inl rfl)
    | drop =>
      refine iff_of_false ?_ (by simpa using crowded)
      simpa only [Keyspace.refresh, if_true] using not_keepsOthers_erase reading present distinct
  · have alone : ∀ other, Registered fields other → other = h.token := by
      intro other present
      by_contra distinct
      exact others ((one_lt_population member).mpr ⟨other, distinct, present⟩)
    have single : population fields = 1 := by
      have := population_pos member
      omega
    rw [exec_readRelease_last reading member single]
    exact iff_of_true (keepsOthers_alone reading alone) (.inr alone)

/-- The handle of a reader `b` with a lease of a second, granted second. -/
def secondReader : RwShared := ⟨"cfg", "b", ⟨2⟩, .fromMillis 1000, false, false⟩

/-- Two readers of the same hash. -/
theorem two_readers_reachable : ∃ s : RwLock, (rwlock "cfg").Reachable s ∧
    s.now = 0 ∧ s.callers "b" = some (.holding secondReader) ∧
    s.db.lookup 0 "cfg" = some ⟨.hash (joined (firstReader "a") "b"), some 1000⟩ :=
  Machine.exists_reachableWhen (fun _ _ => True)
    (fun s : RwLock => s.now = 0 ∧ s.callers "b" = some (.holding secondReader) ∧
      s.db.lookup 0 "cfg" = some ⟨.hash (joined (firstReader "a") "b"), some 1000⟩)
    (RwLock.fresh_initial "cfg")
    (served "a" false 60000 0 ++ served "b" false 1000 0)
    (by decide)

theorem two_readers_shape : ReadMode (joined (firstReader "a") "b") ∧
    ∀ other, Registered (joined (firstReader "a") "b") other ↔ other = "b" ∨ other = "a" := by
  obtain ⟨shape, first⟩ := firstReader_spec "a"
  have fresh : ¬ Registered (firstReader "a") "b" := by
    rw [first]
    decide
  obtain ⟨shape, registers⟩ := joined_spec shape fresh
  exact ⟨shape, fun other => (registers other).trans (or_congr_right (first other))⟩

/-- The second reader's release leaves the first one registered. -/
theorem second_reader_release_keeps_first : ∃ s : RwLock, (rwlock "cfg").Reachable s ∧
    KeepsOthers "cfg" "b" 0 s.db (secondReader.depart 0 s.db .release) := by
  obtain ⟨s, reach, _, held, found⟩ := two_readers_reachable
  obtain ⟨shape, registers⟩ := two_readers_shape
  exact ⟨s, reach, (reader_leaves_others_iff reach held rfl ⟨found, shape⟩
    ((registers "b").mpr (.inl rfl)) .release).mpr ⟨rfl, .inl rfl⟩⟩

/-- Dropping its handle instead deletes the hash under the first reader. -/
theorem second_reader_drop_ends_first :
    ¬ ∀ (s : RwLock) (reader : String) (h : RwShared) (fields : Hash) (now stop : Nat)
      (departure : Departure), (rwlock "cfg").Reachable s → s.now ≤ now →
      s.callers reader = some (.holding h) → h.gone = false → h.writeMode = false →
      Reading "cfg" s.db now fields stop → Registered fields reader →
      KeepsOthers "cfg" reader now s.db (h.depart now s.db departure) := by
  intro always
  obtain ⟨s, reach, now, held, found⟩ := two_readers_reachable
  obtain ⟨shape, registers⟩ := two_readers_shape
  have kept := always s "b" secondReader _ 0 1000 .drop reach now.le held rfl rfl ⟨found, shape⟩
    ((registers "b").mpr (.inl rfl))
  rw [RwShared.depart_eq rfl rfl] at kept
  have others : 1 < population (joined (firstReader "a") "b") := by decide
  rw [show secondReader.key = "cfg" from rfl, show secondReader.token = "b" from rfl,
    exec_readRelease_leave ⟨found, shape⟩ ((registers "b").mpr (.inl rfl)) others] at kept
  have distinct : "a" ≠ "b" := by decide
  exact not_keepsOthers_erase ⟨found, shape⟩ ((registers "a").mpr (.inr rfl)) distinct
    (by simpa only [Keyspace.refresh, if_true] using kept)

/-! Extending. -/

/-- The token is a registered reader or the writer. -/
def HolderAt (key : String) (db : Keyspace) (now : Nat) (token : String) : Prop :=
  RegisteredAt key db now token ∨ ∃ fields stop, Writing key db now fields token stop

/-- `extend` succeeds exactly for a current holder; anyone else is told the lock
is lost and the hash and its expiry stay as they are. -/
def RwShared.ExtendsTruly (h : RwShared) (ttl : Duration) (now : Nat) (db : Keyspace) : Prop :=
  ((h.extend ttl now db).1 = .ok () ↔ HolderAt h.key db now h.token) ∧
  (¬ HolderAt h.key db now h.token →
    (h.extend ttl now db).1 = .error h.lost ∧ (h.extend ttl now db).2.2 h.key = db h.key)

section
variable {key token owner : String} {db : Keyspace} {now stop : Nat} {fields : Hash}

theorem Absent.holderAt (absent : Absent key db now) : ¬ HolderAt key db now token := by
  rintro (member | ⟨fields, stop, found, _⟩)
  · exact absent.registeredAt member
  · cases absent.symm.trans found

theorem Reading.holderAt (reading : Reading key db now fields stop) :
    HolderAt key db now token ↔ Registered fields token := by
  rw [HolderAt, or_iff_left, reading.registeredAt]
  rintro ⟨_, _, writing⟩
  exact writing.not_reading reading

theorem Writing.holderAt (writing : Writing key db now fields owner stop) :
    HolderAt key db now token ↔ owner = token := by
  rw [HolderAt, or_iff_right writing.registeredAt]
  constructor
  · rintro ⟨other, last, found, shape⟩
    cases Option.some.inj (found.symm.trans writing.1)
    simpa using writing.2.owner.symm.trans shape.owner
  · rintro rfl
    exact ⟨fields, stop, writing⟩

end

section
variable {h : RwShared} {ttl : Duration} {db : Keyspace} {now stop : Nat} {fields : Hash}

theorem extend_below_floor (h : RwShared) (now : Nat) (db : Keyspace)
    (below : ttl.nanos < minTtl.nanos) :
    ∃ message, h.extend ttl now db = (.error (.invalidConfig message), h, db) := by
  simp [RwShared.extend, RwShared.extendRequest, validateTtl, below, bind, Except.bind]

theorem extend_gone (valid : minTtl.nanos ≤ ttl.nanos) (gone : h.gone = true) :
    h.extend ttl now db = (.error h.lost, h, db) := by
  simp [RwShared.extend, RwShared.extendRequest, validateTtl, Nat.not_lt.mpr valid, gone, bind,
    Except.bind]

theorem extend_runs (valid : minTtl.nanos ≤ ttl.nanos) (fresh : h.gone = false)
    {status : Int} {after : Keyspace}
    (ran : (ReadWrite.extend h.key h.token ttl.asMillisU64).exec now db = (.ok status, after)) :
    h.extend ttl now db =
      if status < 0 then (.error h.lost, { h with gone := true }, after) else (.ok (), h, after) := by
  have sent : h.extendRequest ttl = .ok (.extend ttl.asMillisU64) := by
    simp [RwShared.extendRequest, validateTtl, Nat.not_lt.mpr valid, fresh, bind, Except.bind, pure,
      Except.pure]
  simp only [RwShared.extend, sent, Command.script, Script.exec_bind_pure ran, RwShared.extendReply]
  split <;> rfl

end

/-- `extend` answers truly exactly when its lease is above the floor and either
the handle is spent and no longer a holder, or it is not and the live hash is
not one of readers among which it is not registered. -/
theorem extend_truthful_iff {s : RwLock} (reach : (rwlock key).Reachable s)
    (held : s.callers token = some (.holding h)) (ttl : Duration) (now : Nat) :
    h.ExtendsTruly ttl now s.db ↔ minTtl.nanos ≤ ttl.nanos ∧
      if h.gone then ¬ HolderAt key s.db now token
      else ¬ ∃ fields stop, Reading key s.db now fields stop ∧ ¬ Registered fields token := by
  have inv := RwLock.inv_reachable reach
  obtain ⟨rfl, rfl⟩ := inv.named token h held
  by_cases valid : minTtl.nanos ≤ ttl.nanos
  · rw [and_iff_right valid]
    cases gone : h.gone with
    | true => simp [RwShared.ExtendsTruly, extend_gone valid gone]
    | false =>
      simp only [Bool.false_eq_true, if_false]
      rcases inv.sound.view now with absent | ⟨fields, stop, reading⟩ | ⟨fields, owner, stop, writing⟩
      · have unread : ¬ ∃ fields stop, Reading h.key s.db now fields stop ∧ ¬ Registered fields h.token := by
          rintro ⟨fields, stop, ⟨found, _⟩, _⟩
          cases absent.symm.trans found
        have denied := extend_runs valid gone (exec_extend_denied (.inl absent))
        exact iff_of_true ⟨by simp [denied, absent.holderAt], by simp [denied]⟩ unread
      · have runs := extend_runs valid gone (exec_extend_shared reading)
        by_cases member : Registered fields h.token
        · refine iff_of_true ⟨by simp [runs, reading.holderAt, member], ?_⟩ ?_
          · exact fun stranger => absurd (reading.holderAt.mpr member) stranger
          · rintro ⟨others, last, elsewhere, stranger⟩
            exact stranger (elsewhere.registeredAt.mp (reading.registeredAt.mpr member))
        · refine iff_of_false ?_ fun unread => unread ⟨fields, stop, reading, member⟩
          rintro ⟨holder, _⟩
          exact member (reading.holderAt.mp (holder.mp (by simp [runs])))
      · have unread : ¬ ∃ fields stop, Reading h.key s.db now fields stop ∧ ¬ Registered fields h.token := by
          rintro ⟨others, last, reading, _⟩
          exact writing.not_reading reading
        by_cases own : owner = h.token
        · subst own
          have runs := extend_runs valid gone (exec_extend_owner writing)
          refine iff_of_true ⟨by simp [runs, writing.holderAt], ?_⟩ unread
          exact fun stranger => absurd (writing.holderAt.mpr rfl) stranger
        · have denied := extend_runs valid gone
            (exec_extend_denied (.inr ⟨fields, owner, stop, writing, own⟩))
          exact iff_of_true ⟨by simp [denied, writing.holderAt, own], by simp [denied]⟩ unread
  · refine iff_of_false ?_ fun conditions => valid conditions.1
    obtain ⟨message, refused⟩ := extend_below_floor h now s.db (Nat.lt_of_not_le valid)
    rintro ⟨succeeds, told⟩
    simp only [refused, reduceCtorEq, false_iff] at succeeds
    have := (told succeeds).1
    simp [refused, RwShared.lost] at this

/-- A writer whose lease lapsed, and the reader that took over from it. -/
def lapsedWriter : RwShared := ⟨"cfg", "w", ⟨1⟩, .fromMillis 100, false, true⟩

theorem lapsed_writer_reachable : ∃ s : RwLock, (rwlock "cfg").Reachable s ∧
    s.now = 100 ∧ s.callers "w" = some (.holding lapsedWriter) ∧
    s.db.lookup 100 "cfg" = some ⟨.hash (firstReader "r"), some 1100⟩ :=
  Machine.exists_reachableWhen (fun _ _ => True)
    (fun s : RwLock => s.now = 100 ∧ s.callers "w" = some (.holding lapsedWriter) ∧
      s.db.lookup 100 "cfg" = some ⟨.hash (firstReader "r"), some 1100⟩)
    (RwLock.fresh_initial "cfg")
    (served "w" true 100 0 ++ served "r" false 1000 100)
    (by decide)

/-- Once the reader's lease is over too, the writer is told the truth. -/
theorem lapsed_writer_told_when_free : ∃ s : RwLock, (rwlock "cfg").Reachable s ∧
    lapsedWriter.ExtendsTruly minTtl 1100 s.db := by
  obtain ⟨s, reach, _, held, found⟩ := lapsed_writer_reachable
  refine ⟨s, reach, (extend_truthful_iff reach held minTtl 1100).mpr ⟨le_rfl, ?_⟩⟩
  rintro ⟨fields, stop, ⟨elsewhere, _⟩, _⟩
  have stored := (Keyspace.lookup_eq_some.mp found).1
  obtain ⟨same, live⟩ := Keyspace.lookup_eq_some.mp elsewhere
  cases Option.some.inj (stored.symm.trans same)
  simp at live

/-- While the reader holds the lock, the writer's `extend` succeeds. -/
theorem lapsed_writer_extends_readers :
    ¬ ∀ (s : RwLock) (token : String) (h : RwShared) (ttl : Duration) (now : Nat),
      (rwlock "cfg").Reachable s → s.callers token = some (.holding h) → h.gone = false →
      s.now ≤ now → minTtl.nanos ≤ ttl.nanos → h.ExtendsTruly ttl now s.db := by
  intro always
  obtain ⟨s, reach, now, held, found⟩ := lapsed_writer_reachable
  obtain ⟨shape, registers⟩ := firstReader_spec "r"
  have reading : Reading "cfg" s.db 100 (firstReader "r") 1100 := ⟨found, shape⟩
  have floor : minTtl.nanos ≤ minTtl.nanos := le_rfl
  have alive : lapsedWriter.gone = false := rfl
  have runs := extend_runs floor alive (exec_extend_shared reading)
  obtain ⟨truthful, _⟩ := always s "w" lapsedWriter minTtl 100 reach held rfl now.le le_rfl
  have holder := truthful.mp (by rw [runs]; rfl)
  have member : Registered (firstReader "r") "w" := reading.holderAt.mp holder
  exact absurd ((registers "w").mp member) (by decide)

end Palisade.ReadWrite
