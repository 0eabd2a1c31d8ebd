import Palisade.Reentrant.Nesting

/-! The lease of an outer hold. The hash has one expiry, which every re-entry and
every partial release sets to a lease of its own. The store backs a hold as long
as none of these ends before the lease the hold was granted for. -/
namespace Palisade.Reentrant
open Redis Single Lease Transition

/-- Every unreleased hold whose lease still runs is of the current generation, and
the hash outlives the lease. -/
def Tally.Backed (tally : Tally) (now : Nat) (record : Option Record) : Prop :=
  ∀ hold ∈ tally.holds, ∀ term, hold.term = some term → term.ends ≤ now ∨
    hold.generation = tally.generation ∧
      ∃ r, record = some r ∧ r.owner = hold.token ∧ term.ends ≤ r.stop

/-- The leases of the other unreleased holds of an owner end no later than `bound`. -/
def Tally.Covers (tally : Tally) (id : Nat) (token : String) (bound : Nat) : Prop :=
  ∀ hold ∈ tally.holds, hold.id ≠ id → hold.token = token → ∀ term ∈ hold.term, term.ends ≤ bound

instance (tally : Tally) (id : Nat) (token : String) (bound : Nat) :
    Decidable (tally.Covers id token bound) :=
  inferInstanceAs (Decidable (∀ hold ∈ tally.holds, _))

theorem leased_covers {now ttl ends : Nat} (covered : ends ≤ now + ttl) (owner : String)
    (count : Int) : ends ≤ now ∨
      ∃ r, leased now ttl owner count = some r ∧ r.owner = owner ∧ ends ≤ r.stop := by
  by_cases zero : ttl = 0
  · exact .inl (by omega)
  · exact .inr ⟨_, leased_eq_some.mpr ⟨zero, rfl⟩, rfl, covered⟩

namespace Tally.Backed
variable {tally : Tally} {now id : Nat} {token : String} {record after : Option Record}
  {command : Command} {status : Int} (backed : tally.Backed now record)
include backed

theorem later {next : Nat} (later : now ≤ next) : tally.Backed next record := by
  intro hold member term given
  exact (backed hold member term given).imp_left fun elapsed => elapsed.trans later

/-- A hold whose lease runs while the hash is visible belongs to the hash's owner. -/
theorem owner {r : Record} (seen : live now record = some r) {hold : Hold}
    (member : hold ∈ tally.holds) {term : Term} (given : hold.term = some term)
    (running : now < term.ends) :
    hold ∈ tally.current ∧ r.owner = hold.token ∧ term.ends ≤ r.stop := by
  rcases backed hold member term given with elapsed | ⟨same, r', stored, owned, covered⟩
  · omega
  · obtain rfl := Option.some.inj ((live_eq_some.mp seen).1.symm.trans stored)
    exact ⟨mem_current.mpr ⟨member, same⟩, owned, covered⟩

theorem elapsed (lapsed : live now record = none) {hold : Hold} (member : hold ∈ tally.holds)
    {term : Term} (given : hold.term = some term) : term.ends ≤ now := by
  rcases backed hold member term given with elapsed | ⟨_, r, stored, _, covered⟩
  · exact elapsed
  · exact covered.trans (live_eq_none.mp lapsed r stored)

theorem opened (lapsed : live now record = none) (ttl : Nat) :
    (tally.add (tally.generation + 1) id now token ttl).Backed now (leased now ttl token 1) := by
  intro hold member term given
  rcases List.mem_cons.mp member with rfl | old
  · obtain rfl := Option.some.inj given
    exact (leased_covers le_rfl token 1).imp_right fun held => ⟨rfl, held⟩
  · exact .inl (backed.elapsed lapsed old given)

theorem reentered (held : live now record = some ⟨token, count, stop⟩)
    (unused : ∀ hold ∈ tally.holds, hold.id ≠ id) {ttl : Nat}
    (covers : tally.Covers id token (now + ttl)) :
    (tally.add tally.generation id now token ttl).Backed now (leased now ttl token (count + 1)) := by
  intro hold member term given
  rcases List.mem_cons.mp member with rfl | old
  · obtain rfl := Option.some.inj given
    exact (leased_covers le_rfl token (count + 1)).imp_right fun held => ⟨rfl, held⟩
  · rcases Nat.lt_or_ge now term.ends with running | elapsed
    · obtain ⟨inside, owned, _⟩ := backed.owner held old given running
      have covered := covers hold old (unused hold old) owned.symm term given
      rcases leased_covers covered token (count + 1) with elapsed | ⟨r, stored, owner, stop⟩
      · exact .inl elapsed
      · exact .inr ⟨(mem_current.mp inside).2, r, stored, owner.trans owned, stop⟩
    · exact .inl elapsed

theorem emptied (agrees : tally.Agrees now record)
    (held : live now record = some ⟨token, count, stop⟩) (last : count - 1 ≤ 0)
    (counts : ∃ hold ∈ tally.current, hold.id = id) :
    (tally.remove fun hold => decide (hold.id = id)).Backed now none := by
  intro hold member term given
  obtain ⟨old, other⟩ := mem_remove.mp member
  rcases Nat.lt_or_ge now term.ends with running | elapsed
  · -- A second hold of this generation would be counted.
    obtain ⟨inside, _, _⟩ := backed.owner held old given running
    obtain ⟨mine, present, rfl⟩ := counts
    have distinct : (tally.current.map Hold.id).Nodup :=
      agrees.distinct.sublist (List.filter_sublist.map _)
    have counted : count = tally.current.length := agrees.counted _ held
    have rest := length_without distinct present
    have among : hold ∈ tally.current.filter fun other => !decide (other.id = mine.id) :=
      List.mem_filter.mpr ⟨inside, by simpa using other⟩
    have positive := List.length_pos_of_mem among
    omega
  · exact .inl elapsed

theorem reduced (held : live now record = some ⟨token, count, stop⟩) {refresh : Nat}
    (covers : 0 < refresh → tally.Covers id token (now + refresh)) :
    (tally.remove fun hold => decide (hold.id = id)).Backed now
      (some ⟨token, count - 1, if 0 < refresh then now + refresh else stop⟩) := by
  intro hold member term given
  obtain ⟨old, other⟩ := mem_remove.mp member
  rcases Nat.lt_or_ge now term.ends with running | elapsed
  · obtain ⟨inside, owned, covered⟩ := backed.owner held old given running
    refine .inr ⟨(mem_current.mp inside).2, _, rfl, owned, ?_⟩
    dsimp only
    split
    · exact covers ‹_› hold old (of_decide_eq_false other) owned.symm term given
    · exact covered
  · exact .inl elapsed

/-- Only holds of other owners are left, and their leases are over. -/
theorem cleared (held : live now record = some ⟨token, count, stop⟩) {left : Tally}
    (foreign : ∀ hold ∈ left.holds, ∀ term, hold.term = some term →
      hold ∈ tally.holds ∧ hold.token ≠ token) : left.Backed now after := by
  intro hold member term given
  obtain ⟨old, other⟩ := foreign hold member term given
  rcases Nat.lt_or_ge now term.ends with running | elapsed
  · obtain ⟨_, owned, _⟩ := backed.owner held old given running
    exact absurd owned.symm other
  · exact .inl elapsed

theorem removed (left : Hold → Bool) : (tally.remove left).Backed now record := by
  intro hold member
  exact backed hold (mem_remove.mp member).1

/-- One script of call `id` for its owner. -/
theorem step (agrees : tally.Agrees now record)
    (outcome : Outcome now token record command status after)
    (unused : ∀ ttl, command = .acquire ttl → tally.granted id = none)
    (counts : ∀ refresh r, command = .releaseOne refresh → live now record = some r →
      r.owner = token → ∃ hold ∈ tally.current, hold.id = id)
    (acquires : ∀ ttl r, command = .acquire ttl → live now record = some r → r.owner = token →
      tally.Covers id token (now + ttl))
    (releases : ∀ refresh r, command = .releaseOne refresh → live now record = some r →
      r.owner = token → 0 < refresh → tally.Covers id token (now + refresh)) :
    (tally.record now id token command status).Backed now after := by
  cases outcome with
  | opened lapsed => exact backed.opened lapsed _
  | reentered held =>
    refine backed.reentered held ?_ (acquires _ _ rfl held rfl)
    intro hold member same
    have given := agrees.known hold member
    rw [same, unused _ rfl] at given
    contradiction
  | denied held other => exact backed
  | emptied held last => exact backed.emptied agrees held last (counts _ _ rfl held rfl)
  | reduced held more =>
    exact backed.reduced held fun positive => releases _ _ rfl held rfl positive
  | cleared held =>
    refine backed.cleared held ?_
    intro hold member term given
    obtain ⟨old, other⟩ := mem_remove.mp member
    exact ⟨old, of_decide_eq_false other⟩
  | extended held =>
    refine backed.cleared held ?_
    intro hold member term given
    obtain ⟨old, inside, rfl⟩ := List.mem_map.mp member
    by_cases same : old.token = token
    · simp [Hold.forget, same] at given
    · have kept : old.forget token = old := if_neg same
      rw [kept]
      exact ⟨inside, same⟩
  | missed absent other =>
    cases command with
    | acquire ttl => exact absurd rfl (other ttl)
    | releaseOne refresh => exact backed.removed _
    | releaseAll => exact backed.removed _
    | extend ttl => exact backed

end Tally.Backed

/-- A re-entry of a call ends no earlier than its owner's other unreleased holds. -/
def Tally.CoveredEntry (tally : Tally) (id now : Nat) : Option Caller → Option Record → Prop
  | some (.asking token ttl), some r =>
    r.owner = token → tally.Covers id token (now + ttl.asMillisU64)
  | _, _ => True

instance (tally : Tally) (id now : Nat) :
    ∀ caller record, Decidable (tally.CoveredEntry id now caller record)
  | some (.asking token ttl), some r =>
    inferInstanceAs (Decidable (r.owner = token → tally.Covers id token (now + ttl.asMillisU64)))
  | some (.asking _ _), none | some (.refused _), _ | some (.holding _ _), _ | none, _ => isTrue trivial

/-- A `release_one` or drop of a call is of a handle of the current generation, and
what it sets the expiry to ends no earlier than its owner's other unreleased holds. -/
def Tally.CoveredExit (tally : Tally) (id now : Nat) : Option Caller → Option Record → Prop
  | some (.holding shared (some (.one refresh))), some r =>
    r.owner = shared.token → tally.granted id = some tally.generation ∧
      (refresh = 0 ∨ tally.Covers id shared.token (now + refresh))
  | _, _ => True

instance (tally : Tally) (id now : Nat) :
    ∀ caller record, Decidable (tally.CoveredExit id now caller record)
  | some (.holding shared (some (.one refresh))), some r =>
    inferInstanceAs (Decidable (r.owner = shared.token → tally.granted id = some tally.generation ∧
      (refresh = 0 ∨ tally.Covers id shared.token (now + refresh))))
  | some (.holding _ (some (.one _))), none | some (.holding _ (some .all)), _
  | some (.holding _ none), _ | some (.asking _ _), _ | some (.refused _), _ | none, _ => isTrue trivial

/-- A script that sets the expiry of its owner's hash ends it no earlier than the
leases of the owner's other unreleased holds, and a `release_one` or a drop that
runs while its owner holds the lock is of a handle of the current generation. -/
def Orderly (key : String) (s : Lock) : Timed → Prop
  | ⟨delay, .acquire id⟩ =>
    s.tally.CoveredEntry id (s.now + delay) (s.callers id) (live (s.now + delay) (recordAt key s.db))
  | ⟨delay, .run id⟩ =>
    s.tally.CoveredExit id (s.now + delay) (s.callers id) (live (s.now + delay) (recordAt key s.db))
  | _ => True

instance (key : String) (s : Lock) : ∀ timed, Decidable (Orderly key s timed)
  | ⟨_, .acquire _⟩ => inferInstanceAs (Decidable (s.tally.CoveredEntry _ _ _ _))
  | ⟨_, .run _⟩ => inferInstanceAs (Decidable (s.tally.CoveredExit _ _ _ _))
  | ⟨_, .ask _ _ _⟩ | ⟨_, .extend _ _⟩ | ⟨_, .extended _⟩ | ⟨_, .releaseOne _⟩ | ⟨_, .releaseAll _⟩
  | ⟨_, .drop _⟩ => isTrue trivial

theorem Orderly.rightful {s : Lock} {timed : Timed} (orderly : Orderly key s timed) :
    s.Rightful key timed := by
  obtain ⟨delay, action⟩ := timed
  rintro id shared refresh r rfl held seen mine
  simp only [Orderly, Tally.CoveredExit, held, seen] at orderly
  exact (orderly mine).1

namespace Lock

/-- While an unreleased hold is inside the lease it was granted for, and its owner
has not extended that, nobody else is granted the lock. -/
def Undisturbed (key : String) (s : Lock) : Prop :=
  ∀ hold ∈ s.tally.holds, ∀ term, hold.term = some term →
    ∀ instant, s.now ≤ instant → instant < term.ends → ∀ token, token ≠ hold.token →
    ∀ ttl status fence, (((Command.acquire ttl).script key token).exec instant s.db).1 =
      .ok (status, fence) → status = 0

theorem undisturbed {s : Lock} (sound : Sound key s.db)
    (backed : s.tally.Backed s.now (recordAt key s.db)) : s.Undisturbed key := by
  intro hold member term given instant later inside token other ttl status fence answered
  rcases backed hold member term given with elapsed | ⟨_, r, stored, owned, covered⟩
  · omega
  · have seen : live instant (recordAt key s.db) = some r := live_eq_some.mpr ⟨stored, by omega⟩
    have foreign : r.owner ≠ token := by
      rw [owned]
      exact other.symm
    obtain ⟨_, _, after, ran, _, applied⟩ := sound.follows token instant (.acquire ttl)
    simp only [Command.apply, seen, foreign, if_false, Prod.mk.injEq] at applied
    rw [ran] at answered
    cases answered
    exact applied.1.symm

def Backed (key : String) (s : Lock) : Prop := s.tally.Backed s.now (recordAt key s.db)

theorem exec_backed {s : Lock} {id : Nat} {command : Command} {next : Reply → Caller}
    (sound : Sound key s.db) (agrees : s.tally.Agrees s.now (recordAt key s.db))
    (backed : s.Backed key) (unused : ∀ ttl, command = .acquire ttl → s.tally.granted id = none)
    (counts : ∀ refresh r, command = .releaseOne refresh →
      live s.now (recordAt key s.db) = some r → r.owner = token → ∃ hold ∈ s.tally.current, hold.id = id)
    (acquires : ∀ ttl r, command = .acquire ttl → live s.now (recordAt key s.db) = some r →
      r.owner = token → s.tally.Covers id token (s.now + ttl))
    (releases : ∀ refresh r, command = .releaseOne refresh →
      live s.now (recordAt key s.db) = some r → r.owner = token → 0 < refresh →
      s.tally.Covers id token (s.now + refresh)) : (s.exec key id token command next).Backed key := by
  obtain ⟨status, fence, after, outcome, _, same⟩ := exec_outcome sound id token command next
  rw [same]
  exact Tally.Backed.step backed agrees outcome unused counts acquires releases

theorem Inv.backed {s t : Lock} {timed : Timed} (inv : s.Inv key) (backed : s.Backed key)
    (orderly : Orderly key s timed) (stepped : (reentrant key).step s timed = some t) :
    t.Backed key := by
  obtain ⟨delay, action⟩ := timed
  have waited := inv.wait delay
  have backed : (s.wait delay).Backed key := Tally.Backed.later backed (Nat.le_add_right ..)
  change (s.wait delay).act key action = some t at stepped
  cases act_moves stepped with
  | called unused refused => exact backed
  | sent => exact backed
  | left held present => exact backed
  | acquired asking =>
    refine exec_backed waited.sound waited.agrees backed (fun _ _ => waited.unused asking) (by simp) ?_
      (by simp)
    rintro ttl r ⟨⟩ seen mine
    change s.callers _ = _ at asking
    change live (s.now + delay) (recordAt key s.db) = some r at seen
    simp only [Orderly, Tally.CoveredEntry, asking, seen] at orderly
    exact orderly mine
  | extended held =>
    exact exec_backed waited.sound waited.agrees backed (by simp) (by simp) (by simp) (by simp)
  | ran held =>
    rename_i shared departure id
    change s.callers id = _ at held
    have straight (refresh : Nat) (r : Record) (one : departure = .one refresh)
        (seen : live (s.now + delay) (recordAt key s.db) = some r) (mine : r.owner = shared.token) :
        s.tally.granted id = some s.tally.generation ∧
          (refresh = 0 ∨ s.tally.Covers id shared.token (s.now + delay + refresh)) := by
      subst one
      simp only [Orderly, Tally.CoveredExit, held, seen] at orderly
      exact orderly mine
    refine exec_backed waited.sound waited.agrees backed (by cases departure <;> simp [Departure.command])
      (waited.counts held fun refresh r one seen mine => (straight refresh r one seen mine).1)
      (by cases departure <;> simp [Departure.command]) ?_
    intro refresh r command seen mine positive
    cases departure with
    | all => simp [Departure.command] at command
    | one =>
      cases command
      exact (straight _ r rfl seen mine).2.resolve_left (Nat.ne_of_gt positive)

theorem backed_reachable {s : Lock} (reach : (reentrant key).ReachableWhen (Orderly key) s) :
    s.Inv key ∧ s.Backed key := by
  induction reach with
  | initial first =>
    refine ⟨inv_reachable (.initial first), ?_⟩
    intro hold member
    simp [first.2.2.2.2.1] at member
  | next _ orderly stepped ih =>
    exact ⟨ih.1.act orderly.rightful stepped, ih.1.backed ih.2 orderly stepped⟩

end Lock

/-- An outer hold keeps everybody else out for the whole of its lease, in every run
whose re-entries and partial releases do not cut it short. -/
theorem nested_reentry_keeps_lease {s : Lock}
    (reach : (reentrant key).ReachableWhen (Orderly key) s) : s.Undisturbed key := by
  obtain ⟨inv, backed⟩ := Lock.backed_reachable reach
  exact Lock.undisturbed inv.sound backed

/-- A re-entry for as long as the outer lease, released early, leaves the outer hold
its minute. -/
theorem equal_reentry_keeps_lease : ∃ s : Lock, s.Undisturbed "orders" ∧ s.now = 5 ∧
    s.tally.holds = [⟨0, "o", 1, some ⟨0, 60000⟩⟩] := by
  obtain ⟨s, reach, facts⟩ := Machine.exists_reachableWhen (Orderly "orders")
    (fun s : Lock => s.now = 5 ∧ s.tally.holds = [⟨0, "o", 1, some ⟨0, 60000⟩⟩])
    (Lock.fresh_initial "orders")
    (granted 0 "o" 60000 0 ++ granted 1 "o" 60000 0 ++ [⟨5, .releaseOne 1⟩, ⟨0, .run 1⟩])
    (by decide)
  exact ⟨s, nested_reentry_keeps_lease reach, facts⟩

/-- The owner holds for a minute and re-enters for ten milliseconds; when these are
over another owner is granted the lock. -/
theorem short_reentry_ends_outer_hold :
    ¬ ∀ s, (reentrant "orders").Reachable s → s.Undisturbed "orders" := by
  intro always
  obtain ⟨s, reach, now, holds, answered⟩ := Machine.exists_reachableWhen (fun _ _ => True)
    (fun s : Lock => s.now = 0 ∧ s.tally.holds = [⟨1, "o", 1, some ⟨0, 10⟩⟩, ⟨0, "o", 1, some ⟨0, 60000⟩⟩] ∧
      (((Command.acquire 1000).script "orders" "p").exec 10 s.db).1 = .ok (1, 3))
    (Lock.fresh_initial "orders")
    (granted 0 "o" 60000 0 ++ granted 1 "o" 10 0)
    (by decide)
  have outer : (⟨0, "o", 1, some ⟨0, 60000⟩⟩ : Hold) ∈ s.tally.holds := by simp [holds]
  exact absurd (always s reach _ outer _ rfl 10 (by omega) (by decide) "p" (by decide) 1000 1 3 answered)
    (by decide)

end Palisade.Reentrant
