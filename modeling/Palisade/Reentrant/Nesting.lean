import Palisade.Reentrant.Holds

/-! What every run keeps between the handles, the tally and the store: while the
hash is visible, its count is the number of handles granted since it was created
and not released, as long as handles of earlier generations keep off it. -/
namespace Palisade.Reentrant
open Redis Single Lease Transition

/-- A handle that can still send its release, or whose release is under way. -/
def Caller.active : Caller → Bool
  | .holding shared leaving => !shared.gone || leaving.isSome
  | _ => false

namespace Lock

structure Inv (key : String) (s : Lock) : Prop where
  sound : Sound key s.db
  agrees : s.tally.Agrees s.now (recordAt key s.db)
  answered : ∀ id, s.tally.granted id ≠ none → ∃ shared leaving,
    s.callers id = some (.holding shared leaving)
  named : ∀ hold ∈ s.tally.holds, ∀ shared leaving,
    s.callers hold.id = some (.holding shared leaving) → hold.token = shared.token
  marked : ∀ id shared leaving, s.callers id = some (.holding shared (some leaving)) →
    shared.gone = true
  alive : ∀ r, live s.now (recordAt key s.db) = some r → ∀ id c, s.callers id = some c →
    c.active = true → s.tally.granted id = some s.tally.generation →
    ∃ hold ∈ s.tally.holds, hold.id = id

theorem put_callers {s : Lock} {id other : Nat} {c d : Caller}
    (found : (s.put id d).callers other = some c) :
    (other = id ∧ c = d) ∨ (other ≠ id ∧ s.callers other = some c) := by
  rcases update_eq_some found with ⟨same, entry⟩ | old
  · exact .inl ⟨same, (Option.some.inj entry).symm⟩
  · exact .inr old

/-- The script of a call runs: what the store and the tally become. -/
theorem exec_outcome {s : Lock} (sound : Sound key s.db) (id : Nat) (token : String)
    (command : Command) (next : Reply → Caller) : ∃ status fence after,
      Outcome s.now token (recordAt key s.db) command status (recordAt key after) ∧
      Sound key after ∧ s.exec key id token command next =
        { s with
          db := after
          callers := Function.update s.callers id (some (next (.ok (status, fence))))
          tally := s.tally.record s.now id token command status } := by
  obtain ⟨status, fence, after, ran, whole, applied⟩ := sound.follows token s.now command
  refine ⟨status, fence, after, Command.outcome applied, whole, ?_⟩
  simp only [exec, ran]

namespace Inv
variable {s : Lock} (inv : s.Inv key)
include inv

theorem wait (delay : Nat) : (s.wait delay).Inv key where
  sound := inv.sound
  agrees := inv.agrees.later (Nat.le_add_right ..)
  answered := inv.answered
  named := inv.named
  marked := inv.marked
  alive r seen := by
    obtain ⟨stored, running⟩ := live_eq_some.mp seen
    exact inv.alive r (live_eq_some.mpr ⟨stored, Nat.lt_of_le_of_lt (Nat.le_add_right ..) running⟩)

/-- A call without a handle is answered without one. -/
theorem refused {id : Nat} {after : Keyspace} (sound : Sound key after)
    (same : recordAt key after = recordAt key s.db)
    (absent : ∀ shared leaving, s.callers id ≠ some (.holding shared leaving))
    (refused : ∀ shared leaving, c ≠ .holding shared leaving) :
    Inv key { s with db := after, callers := Function.update s.callers id (some c) } where
  sound := sound
  agrees := same ▸ inv.agrees
  answered other given := by
    obtain ⟨shared, leaving, held⟩ := inv.answered other given
    have distinct : other ≠ id := by
      rintro rfl
      exact absent shared leaving held
    exact ⟨shared, leaving, (Function.update_of_ne distinct ..).trans held⟩
  named hold member shared leaving held := by
    rcases put_callers held with ⟨_, rfl⟩ | ⟨_, held⟩
    · exact absurd rfl (refused shared leaving)
    · exact inv.named hold member shared leaving held
  marked other shared leaving held := by
    rcases put_callers held with ⟨_, rfl⟩ | ⟨_, held⟩
    · exact absurd rfl (refused shared (some leaving))
    · exact inv.marked other shared leaving held
  alive r seen other d found active := by
    rw [same] at seen
    rcases put_callers found with ⟨rfl, rfl⟩ | ⟨_, found⟩
    · cases d with
      | asking | refused => simp [Caller.active] at active
      | holding shared leaving => exact absurd rfl (refused shared leaving)
    · exact inv.alive r seen other d found active

theorem left {id : Nat} (held : s.callers id = some (.holding shared leaving))
    (present : shared.gone = false) (departure : Departure) :
    (s.put id (.holding { shared with gone := true } (some departure))).Inv key where
  sound := inv.sound
  agrees := inv.agrees
  answered other given := by
    by_cases same : other = id
    · subst same
      exact ⟨_, _, Function.update_self ..⟩
    · obtain ⟨shared, leaving, held⟩ := inv.answered other given
      exact ⟨shared, leaving, (Function.update_of_ne same ..).trans held⟩
  named hold member other departs found := by
    rcases put_callers found with ⟨same, entry⟩ | ⟨_, found⟩
    · cases entry
      exact inv.named hold member shared leaving (same ▸ held)
    · exact inv.named hold member other departs found
  marked other handle departs found := by
    rcases put_callers found with ⟨_, entry⟩ | ⟨_, found⟩
    · cases entry
      rfl
    · exact inv.marked other handle departs found
  alive r seen other c found active := by
    rcases put_callers found with ⟨rfl, _⟩ | ⟨_, found⟩
    · exact inv.alive r seen other _ held (by simp [Caller.active, present])
    · exact inv.alive r seen other c found active

theorem unused {id : Nat} (asking : s.callers id = some (.asking token ttl)) :
    s.tally.granted id = none := by
  by_contra given
  obtain ⟨shared, leaving, held⟩ := inv.answered id given
  simp [asking] at held

/-- A granted call takes its place among the callers and in the tally. -/
theorem granted {id generation ttl : Nat} {after : Keyspace} {shared : ReentrantShared}
    (unused : s.tally.granted id = none) (sound : Sound key after)
    (agrees : (s.tally.add generation id s.now shared.token ttl).Agrees s.now (recordAt key after))
    (alive : ∀ r, live s.now (recordAt key after) = some r → ∀ other c, s.callers other = some c →
      c.active = true → s.tally.granted other = some generation → ∃ hold ∈ s.tally.holds, hold.id = other) :
    Inv key { s with
      db := after
      callers := Function.update s.callers id (some (.holding shared none))
      tally := s.tally.add generation id s.now shared.token ttl } where
  sound := sound
  agrees := agrees
  answered other given := by
    by_cases same : other = id
    · subst same
      exact ⟨_, _, Function.update_self ..⟩
    · simp only [Tally.add, Function.update_of_ne same] at given ⊢
      exact inv.answered other given
  named hold member handle leaving found := by
    rcases List.mem_cons.mp member with rfl | old
    · simp only [Function.update_self, Option.some.injEq, Caller.holding.injEq] at found
      exact found.1 ▸ rfl
    · have other : hold.id ≠ id := by
        intro same
        have given := inv.agrees.known hold old
        rw [same, unused] at given
        contradiction
      exact inv.named hold old handle leaving ((Function.update_of_ne other ..).symm.trans found)
  marked other handle leaving found := by
    rcases put_callers found with ⟨_, entry⟩ | ⟨_, found⟩
    · cases entry
    · exact inv.marked other handle leaving found
  alive r seen other c found active given := by
    rcases put_callers found with ⟨rfl, _⟩ | ⟨distinct, found⟩
    · exact ⟨_, List.mem_cons_self, rfl⟩
    · simp only [Tally.add, Function.update_of_ne distinct] at given
      obtain ⟨hold, member, same⟩ := alive r seen other c found active given
      exact ⟨hold, List.mem_cons_of_mem _ member, same⟩

theorem acquired {id : Nat} (asking : s.callers id = some (.asking token ttl)) :
    (s.exec key id token (.acquire ttl.asMillisU64) (Lock.acquired key token ttl)).Inv key := by
  have unused := inv.unused asking
  obtain ⟨status, fence, after, outcome, sound, same⟩ :=
    exec_outcome inv.sound id token (.acquire ttl.asMillisU64) (Lock.acquired key token ttl)
  have none (hold : Hold) (member : hold ∈ s.tally.holds) (same : hold.id = id) :
      hold.token = token := by
    have given := inv.agrees.known hold member
    rw [same, unused] at given
    contradiction
  have agrees := inv.agrees.step outcome (fun _ _ => unused) none (by simp)
  rw [same]
  generalize recorded : recordAt key after = record at outcome
  cases outcome with
  | opened lapsed =>
    refine inv.granted unused sound agrees ?_
    intro r seen other c found active given
    have bound := inv.agrees.bounded other _ given
    omega
  | reentered held =>
    refine inv.granted unused sound agrees ?_
    intro r seen other c found active given
    exact inv.alive _ held other c found active given
  | denied held other =>
    have refused (shared : ReentrantShared) (leaving : Option Departure) :
        Lock.acquired key token ttl (.ok (0, fence)) ≠ .holding shared leaving := by
      simp [Lock.acquired, acquireReply]
    exact inv.refused sound recorded (by simp [asking]) refused
  | missed absent other => exact absurd rfl (other _)

/-- A script runs for a handle that keeps its place among the callers. -/
theorem handled {id : Nat} {after : Keyspace} {shared next : ReentrantShared}
    {leaving departs : Option Departure} {tally : Tally}
    (held : s.callers id = some (.holding shared leaving)) (token : next.token = shared.token)
    (marked : departs ≠ none → next.gone = true) (sound : Sound key after)
    (agrees : tally.Agrees s.now (recordAt key after)) (grants : tally.granted = s.tally.granted)
    (holds : ∀ hold ∈ tally.holds, ∃ old ∈ s.tally.holds, hold.id = old.id ∧ hold.token = old.token)
    (alive : ∀ r, live s.now (recordAt key after) = some r → ∀ other c, s.callers other = some c →
      (other ≠ id ∧ c.active = true ∨ other = id ∧ (Caller.holding next departs).active = true) →
      tally.granted other = some tally.generation → ∃ hold ∈ tally.holds, hold.id = other)
    (wire : List Extension) :
    Inv key { s with
      db := after
      wire
      callers := Function.update s.callers id (some (.holding next departs))
      tally } where
  sound := sound
  agrees := agrees
  answered other given := by
    by_cases same : other = id
    · subst same
      exact ⟨_, _, Function.update_self ..⟩
    · rw [grants] at given
      obtain ⟨handle, leaving, found⟩ := inv.answered other given
      exact ⟨handle, leaving, (Function.update_of_ne same ..).trans found⟩
  named hold member handle leaves found := by
    obtain ⟨old, inside, same, name⟩ := holds hold member
    rw [name]
    rcases put_callers found with ⟨here, entry⟩ | ⟨_, found⟩
    · cases entry
      rw [token]
      exact inv.named old inside shared leaving (same ▸ here ▸ held)
    · exact inv.named old inside handle leaves (same ▸ found)
  marked other handle leaves found := by
    rcases put_callers found with ⟨_, entry⟩ | ⟨_, found⟩
    · cases entry
      exact marked (by simp)
    · exact inv.marked other handle leaves found
  alive r seen other c found active given := by
    rcases put_callers found with ⟨rfl, rfl⟩ | ⟨distinct, found⟩
    · exact alive r seen _ _ held (.inr ⟨rfl, active⟩) given
    · exact alive r seen other c found (.inl ⟨distinct, active⟩) given

theorem extended {id ttl : Nat} (held : s.callers id = some (.holding shared leaving))
    (wire : List Extension) :
    Inv key ({ s with wire }.exec key id shared.token (.extend ttl) fun reply =>
      .holding (shared.extendReply reply).2 leaving) := by
  obtain ⟨status, fence, after, outcome, sound, same⟩ :=
    exec_outcome (s := { s with wire }) inv.sound id shared.token (.extend ttl) fun reply =>
      .holding (shared.extendReply reply).2 leaving
  have own (hold : Hold) (member : hold ∈ s.tally.holds) (same : hold.id = id) :
      hold.token = shared.token := inv.named hold member shared leaving (same ▸ held)
  have agrees := inv.agrees.step outcome (by simp) own (by simp)
  have token := shared.extendReply_token (.ok (status, fence))
  have marked : leaving ≠ none → (shared.extendReply (.ok (status, fence))).2.gone = true := by
    intro leaves
    obtain ⟨departure, rfl⟩ := Option.ne_none_iff_exists'.mp leaves
    cases gone : (shared.extendReply (.ok (status, fence))).2.gone with
    | true => rfl
    | false =>
      have before := inv.marked id shared departure held
      rw [ReentrantShared.gone_of_extendReply gone] at before
      contradiction
  have was (other : Nat) (c : Caller) (found : s.callers other = some c)
      (active : other ≠ id ∧ c.active = true ∨ other = id ∧
        (Caller.holding (shared.extendReply (.ok (status, fence))).2 leaving).active = true) :
      c.active = true := by
    rcases active with ⟨_, active⟩ | ⟨rfl, active⟩
    · exact active
    · obtain rfl := Option.some.inj (held.symm.trans found)
      simp only [Caller.active, Bool.or_eq_true, Bool.not_eq_true'] at active ⊢
      exact active.imp_left ReentrantShared.gone_of_extendReply
  rw [same]
  generalize recorded : recordAt key after = record at outcome
  cases outcome with
  | extended seen =>
    refine inv.handled held token marked sound agrees rfl ?_ ?_ wire
    · intro hold member
      obtain ⟨old, inside, rfl⟩ := List.mem_map.mp member
      exact ⟨old, inside, Hold.forget_id, Hold.forget_token⟩
    · intro r _ other c found active given
      obtain ⟨hold, member, same⟩ := inv.alive _ seen other c found (was other c found active) given
      exact ⟨hold.forget shared.token, List.mem_map_of_mem member, Hold.forget_id.trans same⟩
  | missed absent other =>
    refine inv.handled held token marked sound agrees rfl ?_ ?_ wire
    · exact fun hold member => ⟨hold, member, rfl, rfl⟩
    · intro r seen other c found active given
      rw [recorded] at seen
      exact inv.alive r seen other c found (was other c found active) given

/-- A handle of the current generation that has a release under way is counted. -/
theorem counts {id : Nat} {departure : Departure}
    (held : s.callers id = some (.holding shared (some departure)))
    (straight : ∀ refresh r, departure = .one refresh → live s.now (recordAt key s.db) = some r →
      r.owner = shared.token → s.tally.granted id = some s.tally.generation)
    (refresh : Nat) (r : Record) (command : departure.command = .releaseOne refresh)
    (seen : live s.now (recordAt key s.db) = some r) (mine : r.owner = shared.token) :
    ∃ hold ∈ s.tally.current, hold.id = id := by
  cases departure with
  | all => simp [Departure.command] at command
  | one =>
    have given := straight _ r rfl seen mine
    obtain ⟨hold, member, here⟩ := inv.alive r seen id _ held (by simp [Caller.active]) given
    refine ⟨hold, Tally.mem_current.mpr ⟨member, ?_⟩, here⟩
    have known := inv.agrees.known hold member
    rw [here, given] at known
    exact (Option.some.inj known).symm

/-- A release ran, with its reply: whatever leaves the tally besides the hold of `id` leaves
with the hash. -/
theorem departed {id : Nat} {departure : Departure} {after : Keyspace}
    (held : s.callers id = some (.holding shared (some departure))) (sound : Sound key after)
    (left : Hold → Bool)
    (others : ∀ r, live s.now (recordAt key after) = some r → ∀ hold, left hold = true → hold.id = id)
    (seen : ∀ r, live s.now (recordAt key after) = some r →
      ∃ r, live s.now (recordAt key s.db) = some r)
    (agrees : (s.tally.remove left).Agrees s.now (recordAt key after)) :
    Inv key { s with
      db := after
      callers := Function.update s.callers id (some (.holding shared none))
      tally := s.tally.remove left } := by
  have gone := inv.marked id shared departure held
  have idle : (Caller.holding shared none).active = false := by simp [Caller.active, gone]
  refine inv.handled held rfl (by simp) sound agrees rfl ?_ ?_ s.wire
  · exact fun hold member => ⟨hold, (Tally.mem_remove.mp member).1, rfl, rfl⟩
  · intro r visible other c found active given
    rcases active with ⟨distinct, active⟩ | ⟨_, active⟩
    · obtain ⟨before, seen⟩ := seen r visible
      obtain ⟨hold, member, same⟩ := inv.alive before seen other c found active given
      refine ⟨hold, Tally.mem_remove.mpr ⟨member, ?_⟩, same⟩
      cases leaves : left hold with
      | false => rfl
      | true => exact absurd (same.symm.trans (others r visible hold leaves)) distinct
    · rw [idle] at active
      contradiction

/-- A release runs. Only a handle of the current generation may take a hold off a
hash that its owner holds. -/
theorem ran {id : Nat} {departure : Departure}
    (held : s.callers id = some (.holding shared (some departure)))
    (straight : ∀ refresh r, departure = .one refresh → live s.now (recordAt key s.db) = some r →
      r.owner = shared.token → s.tally.granted id = some s.tally.generation) :
    Inv key (s.exec key id shared.token departure.command fun _ => .holding shared none) := by
  have own (hold : Hold) (member : hold ∈ s.tally.holds) (same : hold.id = id) :
      hold.token = shared.token := inv.named hold member shared (some departure) (same ▸ held)
  obtain ⟨status, fence, after, outcome, sound, same⟩ :=
    exec_outcome inv.sound id shared.token departure.command fun _ => .holding shared none
  have agrees := inv.agrees.step outcome (by cases departure <;> simp [Departure.command]) own
    (inv.counts held straight)
  rw [same]
  generalize recorded : recordAt key after = record at outcome
  have vanished (none : recordAt key after = none) (r : Record) :
      live s.now (recordAt key after) ≠ some r := by simp [none, live]
  cases departure with
  | one refresh =>
    refine inv.departed held sound _ (fun _ _ hold leaves => of_decide_eq_true leaves) ?_ agrees
    intro r visible
    cases outcome with
    | emptied seen last => exact absurd visible (vanished recorded r)
    | reduced seen more => exact ⟨_, seen⟩
    | missed absent other => exact ⟨r, recorded ▸ visible⟩
  | all =>
    cases outcome with
    | cleared seen =>
      refine inv.departed held sound _ ?_ ?_ agrees
      · exact fun r visible => absurd visible (vanished recorded r)
      · exact fun r visible => absurd visible (vanished recorded r)
    | missed absent other =>
      refine inv.departed held sound _ (fun _ _ hold leaves => of_decide_eq_true leaves) ?_ agrees
      exact fun r visible => ⟨r, recorded ▸ visible⟩

end Inv

/-- A `release_one` or a drop whose owner holds the lock when it runs is of a
handle granted since the hash was created. -/
def Rightful (key : String) (s : Lock) (timed : Timed) : Prop :=
  ∀ id shared refresh r, timed.action = .run id →
    s.callers id = some (.holding shared (some (.one refresh))) →
    live (s.now + timed.delay) (recordAt key s.db) = some r → r.owner = shared.token →
    s.tally.granted id = some s.tally.generation

theorem Inv.act {s t : Lock} {timed : Timed} (inv : s.Inv key) (rightful : s.Rightful key timed)
    (stepped : (reentrant key).step s timed = some t) : t.Inv key := by
  obtain ⟨delay, action⟩ := timed
  have waited := inv.wait delay
  cases act_moves stepped with
  | called unused refused => exact waited.refused waited.sound rfl (by simp [unused]) refused
  | sent => exact ⟨waited.sound, waited.agrees, waited.answered, waited.named, waited.marked, waited.alive⟩
  | left held present => exact waited.left held present _
  | acquired asking => exact waited.acquired asking
  | extended held => exact waited.extended held _
  | ran held =>
    refine waited.ran held ?_
    rintro refresh r rfl seen mine
    exact rightful _ _ _ r rfl held seen mine

theorem inv_reachable {s : Lock} (reach : (reentrant key).ReachableWhen (Rightful key) s) :
    s.Inv key := by
  refine reach.invariant ?_ fun s timed t inv rightful stepped => inv.act rightful stepped
  rintro s ⟨lock, counter, callers, wire, holds, granted⟩
  have absent : recordAt key s.db = none := recordAt_none lock
  refine ⟨⟨by simp [lock], by simp [Counts, counter]⟩, ⟨by simp [granted], by simp [holds],
    by simp [holds], by simp [absent, live], by simp [absent, live]⟩, by simp [granted], by simp [holds],
    by simp [callers], by simp [callers]⟩

/-- Whenever the hash is there, its count is the number of unreleased handles
granted since it was created. -/
def Counted (key : String) (s : Lock) : Prop :=
  ∀ instant entry, s.now ≤ instant → s.db.lookup instant key = some entry →
    ∃ fields stop, entry = ⟨.hash fields, some stop⟩ ∧
      fields.lookup "count" = some (.int s.tally.current.length)

theorem Inv.counted {s : Lock} (inv : s.Inv key) : s.Counted key := by
  intro instant entry later found
  rcases inv.sound.lookup instant with ⟨missing, _⟩ | ⟨fields, owner, count, stop, present, shape, seen⟩
  · simp [missing] at found
  · obtain rfl := Option.some.inj (present.symm.trans found)
    refine ⟨fields, stop, rfl, ?_⟩
    have agrees := inv.agrees.later later
    have count : count = s.tally.current.length := agrees.counted _ seen
    rw [shape.count, count]

end Lock

/-- The release of a call, run while its owner holds the lock, is of a handle granted
since the hash was created. -/
def Tally.OwnRelease (tally : Tally) (id : Nat) : Option Caller → Option Record → Prop
  | some (.holding shared (some _)), some r =>
    r.owner = shared.token → tally.granted id = some tally.generation
  | _, _ => True

instance (tally : Tally) (id : Nat) : ∀ caller record, Decidable (tally.OwnRelease id caller record)
  | some (.holding _ (some _)), some _ => inferInstanceAs (Decidable (_ = _ → _ = _))
  | some (.holding _ (some _)), none | some (.holding _ none), _ | some (.asking _ _), _
  | some (.refused _), _ | none, _ => isTrue trivial

/-- Every release that runs while its owner holds the lock is of a handle granted
since the hash was created. -/
def OwnGeneration (key : String) (s : Lock) : Timed → Prop
  | ⟨delay, .run id⟩ =>
    s.tally.OwnRelease id (s.callers id) (live (s.now + delay) (recordAt key s.db))
  | _ => True

instance (key : String) (s : Lock) : ∀ timed, Decidable (OwnGeneration key s timed)
  | ⟨_, .run _⟩ => inferInstanceAs (Decidable (s.tally.OwnRelease _ _ _))
  | ⟨_, .ask _ _ _⟩ | ⟨_, .acquire _⟩ | ⟨_, .extend _ _⟩ | ⟨_, .extended _⟩ | ⟨_, .releaseOne _⟩
  | ⟨_, .releaseAll _⟩ | ⟨_, .drop _⟩ => isTrue trivial

theorem OwnGeneration.rightful {s : Lock} {timed : Timed} (own : OwnGeneration key s timed) :
    s.Rightful key timed := by
  obtain ⟨delay, action⟩ := timed
  rintro id shared refresh r rfl held seen mine
  simp only [OwnGeneration, Tally.OwnRelease, held, seen] at own
  exact own mine

/-- One handle is one hold, in every run in which no release of a handle of an
earlier generation meets the lock in its owner's hands again. -/
theorem handle_is_one_hold {s : Lock} (reach : (reentrant key).ReachableWhen (OwnGeneration key) s) :
    s.Counted key ∧ ∀ id delay t, OwnGeneration key s ⟨delay, .run id⟩ →
      (reentrant key).step s ⟨delay, .run id⟩ = some t →
      s.tally.granted id ≠ some s.tally.generation → t.db key = s.db key := by
  have inv := Lock.inv_reachable (reach.mono fun _ _ => OwnGeneration.rightful)
  refine ⟨inv.counted, ?_⟩
  intro id delay t own stepped stale
  change (s.wait delay).act key (.run id) = some t at stepped
  cases Lock.act_moves stepped with
  | left held present run => exact absurd rfl (run id)
  | ran held =>
    rename_i shared leaving
    have held : s.callers id = some (.holding shared (some leaving)) := held
    have missed : (leaving.command.script key shared.token).exec (s.now + delay) s.db =
        (.ok (-1, 0), s.db) := by
      apply inv.sound.exec_missed
      · cases leaving <;> simp [Departure.command]
      · intro r seen mine
        simp only [OwnGeneration, Tally.OwnRelease, held, seen] at own
        exact stale (own mine)
    simp only [Lock.exec, Lock.wait, missed]

/-- After a delay, a call whose script runs at once. -/
def granted (id : Nat) (token : String) (ms : UInt64) (delay : Nat) : List Timed :=
  [⟨delay, .ask id token ⟨.fromMillis ms⟩⟩, ⟨0, .acquire id⟩]

/-- Two nested holds of an owner; the inner one is released, and the count is one. -/
theorem nested_hold_released : ∃ s : Lock, s.Counted "orders" ∧ s.now = 5 ∧
    s.tally.current.map Hold.id = [0] ∧ s.db.lookup 5 "orders" ≠ none := by
  obtain ⟨s, reach, facts⟩ := Machine.exists_reachableWhen (OwnGeneration "orders")
    (fun s : Lock => s.now = 5 ∧ s.tally.current.map Hold.id = [0] ∧ s.db.lookup 5 "orders" ≠ none)
    (Lock.fresh_initial "orders")
    (granted 0 "o" 60000 0 ++ granted 1 "o" 60000 0 ++ [⟨5, .releaseOne 1⟩, ⟨0, .run 1⟩])
    (by decide)
  exact ⟨s, (handle_is_one_hold reach).1, facts⟩

/-- The owner's first hold lapses; it enters twice anew. The old handle is dropped,
and the count falls to one with two handles unreleased. -/
theorem lapsed_handle_decrements : ¬ ∀ s, (reentrant "orders").Reachable s → s.Counted "orders" := by
  intro always
  obtain ⟨s, reach, now, holds, counted⟩ := Machine.exists_reachableWhen (fun _ _ => True)
    (fun s : Lock => s.now = 10 ∧ s.tally.current.length = 2 ∧
      live 10 (recordAt "orders" s.db) = some ⟨"o", 1, 60010⟩)
    (Lock.fresh_initial "orders")
    (granted 0 "o" 10 0 ++ granted 1 "o" 60000 10 ++ granted 2 "o" 60000 0 ++
      [⟨0, .drop 0⟩, ⟨0, .run 0⟩])
    (by decide)
  obtain ⟨stored, running⟩ := live_eq_some.mp counted
  obtain ⟨fields, stored, shape⟩ := recordAt_eq_some stored
  have found : s.db.lookup 10 "orders" = some ⟨.hash fields, some 60010⟩ :=
    Keyspace.lookup_eq_some.mpr ⟨stored, by simp⟩
  obtain ⟨_, _, ⟨⟩, count⟩ := always s reach 10 _ now.le found
  rw [shape.count, holds] at count
  contradiction

end Palisade.Reentrant
