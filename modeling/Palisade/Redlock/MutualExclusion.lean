import Palisade.Redlock.Ring

/-! Two rounds never hold the quorum lock at the same time. On each node a grant
is backed by the stored token until the round's lease ends, unless the round
gives it up; two majorities share a node. -/
namespace Palisade.Redlock
open Redis Lease Single Transition

namespace Client

/-- The handle's validity window: from the return of `try_lock` to the end of the
lease, cut off when its release begins. -/
def ValidAt (c : Client) (instant : Nat) : Prop :=
  match c.phase with
  | .holding _ returned released =>
    returned ≤ instant ∧ instant < c.ends ∧ ∀ cut ∈ released, instant < cut
  | _ => False

/-- The round failed, or its handle was released at or before `instant`. -/
def YieldedBy (c : Client) (instant : Nat) : Prop :=
  match c.phase with
  | .failed _ => True
  | .holding _ _ (some released) => released ≤ instant
  | _ => False

/-- What a request on the wire may ask for, given where its caller stands. -/
def Licensed (c : Client) (now : Nat) : Command → Prop
  | .acquire ttlMs => ttlMs = c.ttlMs
  | .extend ttlMs => c.ttlMs ≤ ttlMs
  | .release => c.YieldedBy now
  | .incr => True

/-- The nodes a round counts granted it before it returned, and a round that
passed its check counts a majority. -/
structure Counted (n : Nat) (token : String) (log : List Execution) (c : Client) : Prop where
  granted : ∀ i ∈ c.acquired, ∃ e ∈ log, e.granted = true ∧ e.request.token = token ∧
    e.request.node = i ∧ ∀ fence returned released,
      c.phase = .holding fence returned released → e.time ≤ returned
  nodup : c.acquired.Nodup
  inside : ∀ i ∈ c.acquired, i < n
  visited : ∀ i sent, c.phase = .visiting i sent → ∀ j ∈ c.acquired, j < i
  majority : (c.phase = .allocating ∨ ∃ fence returned released,
    c.phase = .holding fence returned released) → quorum n ≤ c.acquired.length

end Client

instance (c : Client) (instant : Nat) : Decidable (c.ValidAt instant) :=
  match c with
  | ⟨_, _, _, _, .holding _ _ _⟩ => inferInstanceAs (Decidable (_ ∧ _ ∧ _))
  | ⟨_, _, _, _, .visiting _ _⟩ | ⟨_, _, _, _, .allocating⟩ | ⟨_, _, _, _, .failed _⟩ =>
    isFalse id

/-- Extensions use a lease no shorter than the grant's. -/
def Unshortened (s : Ring) : Timed → Prop
  | ⟨_, .client token (.extend ttl)⟩ =>
    ∀ c, s.clients token = some c → c.ttlMs ≤ ttl.asMillisU64
  | _ => True

instance (s : Ring) (timed : Timed) : Decidable (Unshortened s timed) :=
  match timed with
  | ⟨_, .client token (.extend ttl)⟩ =>
    match called : s.clients token with
    | none => isTrue (by simp [Unshortened, called])
    | some c => decidable_of_iff (c.ttlMs ≤ ttl.asMillisU64) (by simp [Unshortened, called])
  | ⟨_, .start _ _⟩ | ⟨_, .run _⟩ => isTrue trivial
  | ⟨_, .client _ .answer⟩ | ⟨_, .client _ (.refuse _)⟩ | ⟨_, .client _ .elapse⟩
  | ⟨_, .client _ .check⟩ | ⟨_, .client _ .allocated⟩ | ⟨_, .client _ (.unreachable _)⟩
  | ⟨_, .client _ .release⟩ => isTrue trivial

/-- Whoever is granted a node after another round: that round had given up the
node by then, or its lease was over. -/
def Succeeds (s : Ring) (newer older : Execution) : Prop :=
  newer.granted = true → older.granted = true → newer.request.node = older.request.node →
    newer.request.token ≠ older.request.token →
    ∀ c, s.clients older.request.token = some c → c.YieldedBy newer.time ∨ c.ends ≤ newer.time

structure Ring.Inv (n : Nat) (key : String) (s : Ring) : Prop where
  begun : ∀ token c, s.clients token = some c → c.started ≤ s.now
  wired : ∀ r ∈ s.wire, ∃ c, s.clients r.token = some c ∧ c.Licensed s.now r.command
  logged : ∀ e ∈ s.log, e.time ≤ s.now
  known : ∀ e ∈ s.log, ∃ c, s.clients e.request.token = some c
  counted : ∀ token c, s.clients token = some c → c.Counted n token s.log
  backed : ∀ e ∈ s.log, e.granted = true → ∀ c, s.clients e.request.token = some c →
    c.YieldedBy s.now ∨
      (holder key (s.nodes e.request.node)).Holds e.request.token s.now c.ends
  succeeds : s.log.Pairwise (Succeeds s)

variable {n now : Nat} {key token : String} {log : List Execution} {c d : Client}

theorem Client.YieldedBy.later (yielded : c.YieldedBy now) (later : now ≤ next) :
    c.YieldedBy next := by
  unfold Client.YieldedBy at *
  split <;> simp_all
  omega

theorem Client.ValidAt.holding (valid : c.ValidAt instant) :
    ∃ fence returned released, c.phase = .holding fence returned released := by
  unfold Client.ValidAt at valid
  split at valid
  · exact ⟨_, _, _, ‹_›⟩
  · contradiction

/-- What happened before the handle returned happened before it is valid. -/
theorem Client.ValidAt.since {time : Nat} (valid : c.ValidAt instant)
    (returned : ∀ fence returned released,
      c.phase = .holding fence returned released → time ≤ returned) : time ≤ instant := by
  obtain ⟨fence, back, released, held⟩ := valid.holding
  simp only [Client.ValidAt, held] at valid
  exact Nat.le_trans (returned _ _ _ held) valid.1

/-- No instant of the window comes after the hold was given up or has run out. -/
theorem Client.ValidAt.excludes {time : Nat} (valid : c.ValidAt instant)
    (elapsed : c.YieldedBy time ∨ c.ends ≤ time) : ¬ time ≤ instant := by
  obtain ⟨fence, back, released, held⟩ := valid.holding
  simp only [Client.ValidAt, Client.YieldedBy, held] at valid elapsed
  rcases elapsed with yielded | elapsed
  · cases released with
    | none => contradiction
    | some cut =>
      have := valid.2.2 cut rfl
      simp only at yielded
      omega
  · omega

theorem Client.Licensed.later {command : Command} (licensed : c.Licensed now command)
    (later : now ≤ next) : c.Licensed next command := by
  cases command with
  | release => exact Client.YieldedBy.later licensed later
  | acquire | extend | incr => exact licensed

/-- A move keeps the round's start and lease and takes back nothing it gave up. -/
theorem Client.Moves.keeps (moves : c.Moves n token now log event d sent) :
    d.started = c.started ∧ d.ttlMs = c.ttlMs ∧ ∀ instant, c.YieldedBy instant → d.YieldedBy instant := by
  cases moves with
  | take stage | pass stage | rollback _ stage | allocate stage | release stage =>
    exact ⟨rfl, rfl, fun _ yielded => by simp [YieldedBy, stage] at yielded⟩
  | hold waiting =>
    exact ⟨rfl, rfl, fun _ yielded => by simp [YieldedBy, waiting] at yielded⟩
  | abort _ waiting => exact ⟨rfl, rfl, fun _ _ => trivial⟩
  | extend => exact ⟨rfl, rfl, fun _ yielded => yielded⟩

theorem Client.Moves.licensed (moves : c.Moves n token now log event d sent)
    (unshortened : ∀ ttl, event = .extend ttl → c.ttlMs ≤ ttl.asMillisU64) :
    ∀ r ∈ sent, r.token = token ∧ d.Licensed now r.command := by
  intro r member
  cases moves with
  | take | pass =>
    simp only [Client.visit] at member
    split at member
    · cases List.mem_singleton.mp member
      exact ⟨rfl, rfl⟩
    · contradiction
  | abort | hold => contradiction
  | rollback error =>
    obtain ⟨i, _, rfl⟩ := List.mem_map.mp member
    exact ⟨rfl, trivial⟩
  | allocate =>
    cases List.mem_singleton.mp member
    exact ⟨rfl, trivial⟩
  | extend ttl =>
    obtain ⟨i, _, rfl⟩ := List.mem_map.mp member
    exact ⟨rfl, unshortened ttl rfl⟩
  | release =>
    obtain ⟨i, _, rfl⟩ := List.mem_map.mp member
    exact ⟨rfl, Nat.le_refl now⟩

/-- The count survives a change of phase that claims no more than it supports. -/
theorem Client.Counted.setPhase (counted : c.Counted n token log) {phase : Phase}
    (visited : ∀ i sent, phase = .visiting i sent → ∀ j ∈ c.acquired, j < i)
    (majority : (phase = .allocating ∨ ∃ fence returned released,
      phase = .holding fence returned released) → quorum n ≤ c.acquired.length)
    (returned : ∀ fence returned released, phase = .holding fence returned released →
      ∀ e ∈ log, (∀ fence returned released, c.phase = .holding fence returned released →
        e.time ≤ returned) → e.time ≤ returned) :
    Client.Counted n token log { c with phase } := by
  refine ⟨?_, counted.nodup, counted.inside, visited, majority⟩
  intro j member
  obtain ⟨e, ran, granted, asked, node, before⟩ := counted.granted j member
  exact ⟨e, ran, granted, asked, node, fun fence instant cut held => returned _ _ _ held e ran before⟩

theorem Client.Counted.push (counted : c.Counted n token log) (stage : c.phase = .visiting i sent)
    (inside : i < n) {e : Execution} (ran : e ∈ log) (asked : e.request = ⟨token, i, .acquire c.ttlMs⟩)
    (granted : e.granted = true) :
    Client.Counted n token log ((c.push n i now).visit token n (i + 1) now).1 := by
  have below := counted.visited _ _ stage
  have cases {j : Nat} (member : j ∈ c.acquired ++ [i]) : j ∈ c.acquired ∨ j = i := by
    simpa using member
  refine ⟨?_, ?_, ?_, ?_, by simp [Client.visit]⟩
  · intro j member
    rcases cases member with old | rfl
    · obtain ⟨e, ran, granted, asked, node, _⟩ := counted.granted j old
      exact ⟨e, ran, granted, asked, node, by simp [Client.visit]⟩
    · exact ⟨e, ran, granted, by rw [asked], by rw [asked], by simp [Client.visit]⟩
  · refine List.nodup_append.mpr ⟨counted.nodup, List.nodup_singleton i, ?_⟩
    rintro j old _ new rfl
    cases List.mem_singleton.mp new
    exact absurd (below _ old) (Nat.lt_irrefl _)
  · intro j member
    rcases cases member with old | rfl
    · exact counted.inside j old
    · exact inside
  · rintro _ _ ⟨⟩ j member
    rcases cases member with old | rfl
    · exact Nat.lt_succ_of_lt (below j old)
    · exact Nat.lt_succ_self _

theorem Client.Moves.counted (moves : c.Moves n token now log event d sent)
    (counted : c.Counted n token log) (logged : ∀ e ∈ log, e.time ≤ now) : d.Counted n token log := by
  cases moves with
  | take stage inside ran asked granted => exact counted.push stage inside ran asked granted
  | pass stage inside =>
    refine counted.setPhase ?_ (by simp) (by simp)
    rintro _ _ ⟨⟩ j member
    exact Nat.lt_succ_of_lt (counted.visited _ _ stage j member)
  | abort error | rollback error => exact counted.setPhase (by simp) (by simp) (by simp)
  | allocate stage majority => exact counted.setPhase (by simp) (fun _ => majority) (by simp)
  | hold waiting =>
    refine counted.setPhase (by simp) (fun _ => counted.majority (.inl waiting)) ?_
    rintro _ _ _ ⟨⟩ e ran _
    exact logged e ran
  | extend => exact counted
  | release held =>
    refine counted.setPhase (by simp) (fun _ => counted.majority (.inr ⟨_, _, _, held⟩)) ?_
    rintro _ _ _ ⟨⟩ e _ before
    exact before _ _ _ held

namespace Ring.Inv
variable {s : Ring}

theorem wait (inv : s.Inv n key) (delay : Nat) : (s.wait delay).Inv n key where
  begun token c called := Nat.le_trans (inv.begun token c called) (Nat.le_add_right _ _)
  wired r member := by
    obtain ⟨c, called, licensed⟩ := inv.wired r member
    exact ⟨c, called, licensed.later (Nat.le_add_right _ _)⟩
  logged e ran := Nat.le_trans (inv.logged e ran) (Nat.le_add_right _ _)
  known := inv.known
  counted := inv.counted
  backed e ran granted c called :=
    (inv.backed e ran granted c called).imp
      (fun yielded => yielded.later (Nat.le_add_right _ _))
      (fun holds => holds.later (Nat.le_add_right _ _))
  succeeds := inv.succeeds

/-- A new caller, or a later state of a known one. -/
theorem put (inv : s.Inv n key) (begun : d.started ≤ s.now)
    (keeps : ∀ c, s.clients token = some c → d.started = c.started ∧ d.ttlMs = c.ttlMs ∧
      ∀ instant, c.YieldedBy instant → d.YieldedBy instant)
    (counted : d.Counted n token s.log)
    (licensed : ∀ r ∈ sent, r.token = token ∧ d.Licensed s.now r.command) :
    (s.put token d sent).Inv n key := by
  have present {other : String} {e : Client} (found : s.clients other = some e) :
      ∃ f, (s.put token d sent).clients other = some f ∧
        ∀ command, e.Licensed s.now command → f.Licensed s.now command := by
    by_cases same : other = token
    · subst same
      obtain ⟨_, lease, yields⟩ := keeps e found
      refine ⟨d, Function.update_self .., fun command allowed => ?_⟩
      cases command with
      | acquire | extend => simpa only [Client.Licensed, lease] using allowed
      | release => exact yields _ allowed
      | incr => trivial
    · exact ⟨e, (Function.update_of_ne same ..).trans found, fun _ allowed => allowed⟩
  have ends {c : Client} (found : s.clients token = some c) : d.ends = c.ends := by
    obtain ⟨started, lease, _⟩ := keeps c found
    rw [Client.ends, Client.ends, started, lease]
  refine ⟨?_, ?_, inv.logged, ?_, ?_, ?_, ?_⟩
  · intro other e found
    rcases Ring.put_clients found with ⟨rfl, rfl⟩ | ⟨_, found⟩
    · exact begun
    · exact inv.begun other e found
  · intro r member
    rcases List.mem_append.mp member with new | old
    · obtain ⟨rfl, allowed⟩ := licensed r new
      exact ⟨d, Function.update_self .., allowed⟩
    · obtain ⟨e, found, allowed⟩ := inv.wired r old
      obtain ⟨f, found, keeps⟩ := present found
      exact ⟨f, found, keeps _ allowed⟩
  · intro e ran
    obtain ⟨f, found⟩ := inv.known e ran
    obtain ⟨f, found, _⟩ := present found
    exact ⟨f, found⟩
  · intro other e found
    rcases Ring.put_clients found with ⟨rfl, rfl⟩ | ⟨_, found⟩
    · exact counted
    · exact inv.counted other e found
  · intro e ran granted f found
    rcases Ring.put_clients found with ⟨same, rfl⟩ | ⟨_, found⟩
    · obtain ⟨c, called⟩ := inv.known e ran
      rw [ends (same ▸ called)]
      exact (inv.backed e ran granted c called).imp_left ((keeps c (same ▸ called)).2.2 _)
    · exact inv.backed e ran granted f found
  · apply inv.succeeds.imp_of_mem
    intro newer older _ ran succeeds granted₁ granted₂ node distinct f found
    rcases Ring.put_clients found with ⟨same, rfl⟩ | ⟨_, found⟩
    · obtain ⟨c, called⟩ := inv.known older ran
      rw [ends (same ▸ called)]
      exact (succeeds granted₁ granted₂ node distinct c called).imp_left ((keeps c (same ▸ called)).2.2 _)
    · exact succeeds granted₁ granted₂ node distinct f found

theorem start (inv : s.Inv n key) (fresh : s.clients token = none) (options : LockOptions) :
    (s.start n token options).Inv n key := by
  have unknown {d : Client} (c : Client) (called : s.clients token = some c) :
      d.started = c.started ∧ d.ttlMs = c.ttlMs ∧
        ∀ instant, c.YieldedBy instant → d.YieldedBy instant := by
    rw [fresh] at called
    contradiction
  unfold Ring.start
  split
  · refine inv.put (Nat.le_refl _) unknown ?_ (by simp)
    exact ⟨by simp [Client.fail], by simp [Client.fail], by simp [Client.fail],
      by simp [Client.fail], by simp [Client.fail]⟩
  · apply inv.put (Nat.le_refl _) unknown
    · exact ⟨by simp [Client.visit], by simp [Client.visit], by simp [Client.visit],
        by simp [Client.visit], by simp [Client.visit]⟩
    · intro r member
      simp only [Client.visit] at member
      split at member
      · cases List.mem_singleton.mp member
        exact ⟨rfl, rfl⟩
      · contradiction

theorem client (inv : s.Inv n key) (called : s.clients token = some c)
    (moves : c.Moves n token s.now s.log event d sent)
    (unshortened : ∀ ttl, event = .extend ttl → c.ttlMs ≤ ttl.asMillisU64) :
    (s.put token d sent).Inv n key := by
  refine inv.put (moves.keeps.1 ▸ inv.begun token c called) ?_
    (moves.counted (inv.counted token c called) inv.logged) (moves.licensed unshortened)
  intro same found
  cases Option.some.inj (called.symm.trans found)
  exact moves.keeps

/-- A hold survives every execution on its node that its round licenses. -/
theorem run_backed (inv : s.Inv n key) {r : Request} (sent : r ∈ s.wire) {e : Execution}
    (ran : e ∈ s.log) (granted : e.granted = true) (called : s.clients e.request.token = some c) :
    c.YieldedBy s.now ∨
      (holder key ((s.run key r).nodes e.request.node)).Holds e.request.token s.now c.ends := by
  rcases inv.backed e ran granted c called with yielded | holds
  · exact .inl yielded
  by_cases yielded : c.YieldedBy s.now
  · exact .inl yielded
  by_cases here : e.request.node = r.node
  · refine .inr ?_
    rw [here] at holds ⊢
    simp only [Ring.run, Function.update_self]
    obtain ⟨asking, asked, licensed⟩ := inv.wired r sent
    obtain ⟨event, step, frees, renews, _⟩ :=
      command_step key r.token r.command (s.nodes r.node) s.now
    have same (own : e.request.token = r.token) : asking = c := by
      rw [← own, called] at asked
      exact (Option.some.inj asked).symm
    apply step.holds holds
    · intro freed
      obtain ⟨command, own⟩ := frees _ freed
      rw [command, same own] at licensed
      exact yielded licensed
    · intro lease renewed
      obtain ⟨command, own⟩ := renews _ lease renewed
      have begun := inv.begun _ c called
      rcases command with command | command <;>
      · rw [command, same own] at licensed
        simp only [Client.Licensed] at licensed
        simp only [Client.ends]
        omega
  · exact .inr (by simpa only [Ring.run, Function.update_of_ne here] using holds)

/-- A grant on a node leaves the token there for the whole lease, and nobody
else's unreleased hold was running. -/
theorem run_granted (inv : s.Inv n key) {r : Request} (sent : r ∈ s.wire)
    (granted : Execution.granted ⟨r, s.now,
      ((r.command.script key r.token).exec s.now (s.nodes r.node)).1⟩ = true) :
    (∀ c, s.clients r.token = some c →
      (holder key ((s.run key r).nodes r.node)).Holds r.token s.now c.ends) ∧
    ∀ owner ≠ r.token, holder key (s.nodes r.node) s.now ≠ some owner := by
  obtain ⟨token, node, command⟩ := r
  obtain ⟨event, step, _, _, grants⟩ := command_step key token command (s.nodes node) s.now
  obtain ⟨asking, asked, licensed⟩ := inv.wired _ sent
  obtain ⟨lease, rfl, shape⟩ : ∃ lease, command = .acquire lease ∧
      (event = .grant token lease ∨ event = .renew token lease) := by
    simp only [Execution.granted] at granted
    split at granted
    · rename_i answered
      exact ⟨_, rfl, grants _ _ _ rfl answered (.inl rfl)⟩
    · rename_i answered
      exact ⟨_, rfl, grants _ _ _ rfl answered (.inr rfl)⟩
    · contradiction
  have begun := inv.begun _ asking asked
  simp only [Client.Licensed] at licensed
  have enough : asking.ends ≤ s.now + lease := by
    simp only [Client.ends]
    omega
  obtain ⟨vacant, runs⟩ := step.taken shape
  simp only [Ring.run, Function.update_self]
  constructor
  · intro c called
    cases Option.some.inj (asked.symm.trans called)
    exact runs.holds enough
  · exact fun owner distinct held => distinct (vacant owner held)

theorem run (inv : s.Inv n key) {r : Request} (sent : r ∈ s.wire) : (s.run key r).Inv n key where
  begun := inv.begun
  wired request member := inv.wired request (List.mem_of_mem_erase member)
  logged := List.forall_mem_cons.mpr ⟨Nat.le_refl _, inv.logged⟩
  known := by
    refine List.forall_mem_cons.mpr ⟨?_, inv.known⟩
    obtain ⟨c, called, _⟩ := inv.wired r sent
    exact ⟨c, called⟩
  counted token c called := by
    have counted := inv.counted token c called
    refine ⟨fun i member => ?_, counted.nodup, counted.inside, counted.visited, counted.majority⟩
    obtain ⟨e, ran, facts⟩ := counted.granted i member
    exact ⟨e, List.mem_cons_of_mem _ ran, facts⟩
  backed := by
    refine List.forall_mem_cons.mpr ⟨?_, ?_⟩
    · intro granted c called
      exact .inr ((inv.run_granted sent granted).1 c called)
    · intro e ran granted c called
      exact inv.run_backed sent ran granted called
  succeeds := by
    refine List.pairwise_cons.mpr ⟨?_, inv.succeeds⟩
    intro older ran granted₁ granted₂ node distinct c called
    rcases inv.backed older ran granted₂ c called with yielded | holds
    · exact .inl yielded
    · refine .inr (Nat.le_of_not_lt fun running => ?_)
      have held := holds s.now (Nat.le_refl _) running
      rw [← node] at held
      exact (inv.run_granted sent granted₁).2 _ distinct.symm held

end Ring.Inv

theorem Ring.inv_reachable {s : Ring} (reach : (ring n key).ReachableWhen Unshortened s) :
    s.Inv n key := by
  refine ring_invariant ?_ ?_ ?_ ?_ ?_ reach
  · rintro s ⟨wire, log, clients, _⟩
    exact ⟨by simp [clients], by simp [wire], by simp [log], by simp [log], by simp [clients],
      by simp [log], by simp [log]⟩
  · exact fun s delay inv => inv.wait delay
  · exact fun s token options inv fresh => inv.start fresh options
  · intro s delay token event c d sent inv unshortened called moves
    apply inv.client called moves
    rintro ttl rfl
    exact unshortened c called
  · exact fun s delay request inv _ sent => inv.run sent

/-- Mutual exclusion: for every number of nodes and every interleaving of rounds,
late executions, rollbacks, releases and refresh rounds, two calls never hold
the lock at the same instant. -/
theorem windows_disjoint {s : Ring} (reach : (ring n key).ReachableWhen Unshortened s)
    {first second : String} (distinct : first ≠ second) {c d : Client}
    (called₁ : s.clients first = some c) (called₂ : s.clients second = some d) (instant : Nat) :
    ¬ (c.ValidAt instant ∧ d.ValidAt instant) := by
  have inv := Ring.inv_reachable reach
  rintro ⟨valid₁, valid₂⟩
  obtain ⟨i, shared₁, shared₂⟩ := Majority.overlap (inv.counted _ c called₁).nodup
    (inv.counted _ d called₂).nodup (inv.counted _ c called₁).inside (inv.counted _ d called₂).inside
    ((inv.counted _ c called₁).majority (.inr valid₁.holding))
    ((inv.counted _ d called₂).majority (.inr valid₂.holding))
  obtain ⟨e, ran₁, granted₁, rfl, node₁, returned₁⟩ := (inv.counted _ c called₁).granted i shared₁
  obtain ⟨f, ran₂, granted₂, rfl, node₂, returned₂⟩ := (inv.counted _ d called₂).granted i shared₂
  have differ : e ≠ f := fun same => distinct (by rw [same])
  rcases ordered inv.succeeds differ ran₁ ran₂ with later | later
  · have elapsed := later granted₁ granted₂ (node₁.trans node₂.symm) distinct d called₂
    exact valid₂.excludes elapsed (valid₁.since returned₁)
  · have elapsed := later granted₂ granted₁ (node₂.trans node₁.symm) distinct.symm c called₁
    exact valid₁.excludes elapsed (valid₂.since returned₂)

/-- Caller `a` holds for a second and is extended once; when all its leases have
run out `b` acquires. -/
theorem windows_disjoint_in_turn : ∃ (s : Ring) (c d : Client),
    s.clients "a" = some c ∧ s.clients "b" = some d ∧ c.ValidAt 0 ∧ d.ValidAt 2000 ∧
    ∀ instant, ¬ (c.ValidAt instant ∧ d.ValidAt instant) := by
  obtain ⟨s, reach, ⟨c, called₁, valid₁⟩, ⟨d, called₂, valid₂⟩⟩ := Machine.exists_reachableWhen Unshortened
    (fun s : Ring => (∃ c ∈ s.clients "a", c.ValidAt 0) ∧ ∃ d ∈ s.clients "b", d.ValidAt 2000)
    (Ring.fresh_initial 3 "orders")
    (undisturbed 3 "a" oneSecond 0 ++ [⟨500, .client "a" (.extend oneSecond)⟩,
      ⟨0, .run ⟨"a", 1, .extend 1000⟩⟩, ⟨1500, .run ⟨"a", 2, .extend 1000⟩⟩] ++
      undisturbed 3 "b" oneSecond 0)
    (by decide)
  exact ⟨s, c, d, called₁, called₂, valid₁, valid₂, windows_disjoint reach (by decide) called₁ called₂⟩

end Palisade.Redlock
