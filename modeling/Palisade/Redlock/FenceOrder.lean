import Palisade.Redlock.Ring

/-! The order of fences against the order of leases. The allocator's counter only
grows, so fences are ordered as their `INCR`s ran; a round's `INCR` is sent
after its quorum was collected, but nothing bounds when it runs. -/
namespace Palisade.Redlock
open Redis Lease Single Transition

/-- A handle whose quorum was collected after another's lease window has the
greater fence, and a resource that accepted its write rejects the other's. -/
def Ring.FencesFollow (s : Ring) : Prop :=
  ∀ first second c d, s.clients first = some c → s.clients second = some d →
    ∀ older newer returned₁ returned₂ released₁ released₂ collected,
      c.phase = .holding older returned₁ released₁ → d.phase = .holding newer returned₂ released₂ →
      d.collected = some collected → c.ends ≤ collected →
      older.value < newer.value ∧
        ∀ resource : Resource, newer.value ≤ resource.last.value → resource.write older = none

/-- An allocator `INCR` runs within the lease window of its own round. -/
def Prompt (s : Ring) : Timed → Prop
  | ⟨delay, .run ⟨token, _, .incr⟩⟩ => ∀ c ∈ s.clients token, s.now + delay < c.ends
  | _ => True

instance (s : Ring) (timed : Timed) : Decidable (Prompt s timed) :=
  match timed with
  | ⟨_, .run ⟨_, _, .incr⟩⟩ => inferInstanceAs (Decidable (∀ c ∈ _, _))
  | ⟨_, .run ⟨_, _, .acquire _⟩⟩ | ⟨_, .run ⟨_, _, .extend _⟩⟩ | ⟨_, .run ⟨_, _, .release⟩⟩
  | ⟨_, .start _ _⟩ | ⟨_, .client _ _⟩ => isTrue trivial

/-! The lock scripts never touch a counter that has no expiry, and never make one. -/

def KeepsCounter (counter : String) (db after : Keyspace) : Prop :=
  after counter = db counter ∨
    (∀ value stop, after counter ≠ some ⟨.string (.int value), stop⟩) ∧
    ∀ value, db counter ≠ some ⟨.string (.int value), none⟩

theorem allocatorKey_ne (key : String) : allocatorKey ≠ fenceKeyFor key := by
  intro same
  have first := congrArg (fun text => text.toList.head?) same
  simp [fenceKeyFor, allocatorKey] at first

section
variable {counter key token : String} {db after : Keyspace} {now ttl : Nat}

theorem KeepsCounter.congr (kept : KeepsCounter counter db after)
    (same : next counter = after counter) : KeepsCounter counter db next := by
  simpa only [KeepsCounter, same] using kept

theorem keepsCounter_refresh (free : ∀ value, db.lookup now key ≠ some ⟨.string (.int value), none⟩) :
    KeepsCounter counter db (db.refresh now key (.string (.raw token)) ttl) := by
  by_cases same : counter = key
  · subst same
    refine .inr ⟨?_, ?_⟩
    · intro value stop stored
      rw [Keyspace.refresh_self, Keyspace.refreshed_eq_some] at stored
      simp at stored
    · exact fun value stored => free value (Keyspace.lookup_eq_some.mpr ⟨stored, rfl⟩)
  · exact .inl (Keyspace.refresh_of_ne same)

theorem keepsCounter_erase (now : Nat)
    (free : ∀ value, db.lookup now key ≠ some ⟨.string (.int value), none⟩) :
    KeepsCounter counter db (db.erase key) := by
  by_cases same : counter = key
  · subst same
    refine .inr ⟨by simp, ?_⟩
    exact fun value stored => free value (Keyspace.lookup_eq_some.mpr ⟨stored, rfl⟩)
  · exact .inl (Keyspace.erase_of_ne same)

theorem command_keepsCounter {command : Command} (other : command ≠ .incr) :
    KeepsCounter allocatorKey db ((command.script key token).exec now db).2 := by
  have distinct := allocatorKey_ne key
  cases command with
  | acquire ttlMs =>
    rw [Command.script, exec_acquire]
    split
    · exact .inl rfl
    · split
      · rename_i free
        exact (keepsCounter_refresh (by simp [free])).congr (allocate_leaves distinct _ _ _)
      · split
        · rename_i found same
          subst same
          exact (keepsCounter_refresh (by simp [found])).congr (allocate_leaves distinct _ _ _)
        · exact .inl rfl
      · exact .inl rfl
  | extend ttlMs =>
    have kept : KeepsCounter allocatorKey db ((Single.extend key (fenceKeyFor key) token ttlMs
        (ttlMs * 10 % 2 ^ 64)).exec now db).2 := by
      rw [exec_extend]
      split
      · exact .inl rfl
      · split
        · rename_i found same
          subst same
          exact (keepsCounter_refresh (by simp [found])).congr (Script.leaves_pexpire distinct _ _)
        · exact .inl rfl
      · exact .inl rfl
    rwa [Command.script, Script.state_bind_pure]
  | release =>
    have kept : KeepsCounter allocatorKey db ((Single.release key token).exec now db).2 := by
      rw [exec_release]
      split
      · exact .inl rfl
      · split
        · rename_i found same
          subst same
          exact keepsCounter_erase now (by simp [found])
        · exact .inl rfl
      · exact .inl rfl
    rwa [Command.script, Script.state_bind_pure]
  | incr => contradiction

end

/-- `INCR` on a counter that never expires counts on. -/
theorem incr_counter {db : Keyspace} (now : Nat)
    (sane : ∀ value stop, db allocatorKey = some ⟨.string (.int value), stop⟩ →
      stop = none ∧ 0 ≤ value) :
    (∃ fault, (Script.incr allocatorKey).exec now db = (.error fault, db)) ∨
    ∃ value after, (Script.incr allocatorKey).exec now db = (.ok value, after) ∧
      after allocatorKey = some ⟨.string (.int value), none⟩ ∧ 0 < value ∧
      ∀ top, db allocatorKey = some ⟨.string (.int top), none⟩ → top < value := by
  rw [Script.exec_incr]
  match found : db.lookup now allocatorKey with
  | none =>
    refine .inr ⟨1, _, rfl, Keyspace.put_self, by decide, ?_⟩
    intro top stored
    simpa using Keyspace.lookup_eq_none.mp found _ stored
  | some ⟨.string (.int value), stop⟩ =>
    obtain ⟨stored, _⟩ := Keyspace.lookup_eq_some.mp found
    obtain ⟨rfl, positive⟩ := sane value stop stored
    refine .inr ⟨value + 1, _, rfl, Keyspace.put_self, by omega, ?_⟩
    intro top same
    cases Option.some.inj (stored.symm.trans same)
    omega
  | some ⟨.string (.raw _), _⟩ | some ⟨.hash _, _⟩ | some ⟨.zset _, _⟩ | some ⟨.list _, _⟩ =>
    exact .inl ⟨_, rfl⟩

/-- An execution that allocated a fence. -/
def Execution.Issued (e : Execution) (value : Int) : Prop :=
  e.request.command = .incr ∧ ∃ status, e.reply = .ok (status, value)

/-- The quorum was complete by `instant`, and the round has left the loop. -/
def Client.Gathered (c : Client) (instant : Nat) : Prop :=
  (∃ collected ∈ c.collected, collected ≤ instant) ∧ ∀ i sent, c.phase ≠ .visiting i sent

structure Ring.Fences (n : Nat) (s : Ring) : Prop where
  counter : ∀ value stop, s.nodes 0 allocatorKey = some ⟨.string (.int value), stop⟩ →
    stop = none ∧ 0 ≤ value
  issued : ∀ e ∈ s.log, ∀ value, e.Issued value → 0 < value ∧
    ∃ top ≥ value, s.nodes 0 allocatorKey = some ⟨.string (.int top), none⟩
  increasing : s.log.Pairwise fun newer older => ∀ value bound, older.Issued value →
    newer.Issued bound → value < bound ∧ older.time ≤ newer.time
  logged : ∀ e ∈ s.log, e.time ≤ s.now
  reached : ∀ token c, s.clients token = some c → quorum n ≤ c.acquired.length →
    ∃ collected ∈ c.collected, collected ≤ s.now
  wired : ∀ r ∈ s.wire, r.command = .incr →
    r.node = 0 ∧ ∃ c, s.clients r.token = some c ∧ c.Gathered s.now
  prompt : ∀ e ∈ s.log, e.request.command = .incr →
    ∃ c, s.clients e.request.token = some c ∧ c.Gathered e.time ∧ e.time < c.ends
  held : ∀ token c, s.clients token = some c → ∀ fence returned released,
    c.phase = .holding fence returned released →
    ∃ e ∈ s.log, e.request.token = token ∧ ∃ value, e.Issued value ∧ fence = ⟨value.toNat⟩

variable {n now : Nat} {key token : String} {log : List Execution} {c d : Client}

theorem Client.Moves.gathered (moves : c.Moves n token now log event d sent)
    (gathered : c.Gathered instant) : d.Gathered instant ∧ d.ends = c.ends := by
  obtain ⟨collected, left⟩ := gathered
  cases moves with
  | take stage | pass stage | allocate stage | rollback _ stage => exact absurd stage (left _ _)
  | abort error => exact ⟨⟨collected, by simp [Client.fail]⟩, rfl⟩
  | hold | release => exact ⟨⟨collected, by simp⟩, rfl⟩
  | extend => exact ⟨⟨collected, left⟩, rfl⟩

theorem Client.Moves.reached (moves : c.Moves n token now log event d sent)
    (reached : quorum n ≤ c.acquired.length → ∃ collected ∈ c.collected, collected ≤ now)
    (enough : quorum n ≤ d.acquired.length) : ∃ collected ∈ d.collected, collected ≤ now := by
  cases moves with
  | take stage =>
    simp only [Client.visit, Client.push, List.length_append, List.length_singleton] at enough ⊢
    split
    · exact ⟨now, rfl, Nat.le_refl _⟩
    · exact reached (by omega)
  | pass | abort | rollback | allocate | hold | extend | release => exact reached enough

/-- The allocator request of a round is sent once the quorum is complete. -/
theorem Client.Moves.asks (moves : c.Moves n token now log event d sent)
    (reached : quorum n ≤ c.acquired.length → ∃ collected ∈ c.collected, collected ≤ now) :
    ∀ r ∈ sent, r.command = .incr → r.token = token ∧ r.node = 0 ∧ d.Gathered now := by
  intro r member incr
  cases moves with
  | take | pass =>
    simp only [Client.visit] at member
    split at member
    · cases List.mem_singleton.mp member
      contradiction
    · contradiction
  | abort | hold => contradiction
  | rollback | extend | release =>
    obtain ⟨i, _, rfl⟩ := List.mem_map.mp member
    contradiction
  | allocate stage majority =>
    cases List.mem_singleton.mp member
    exact ⟨rfl, rfl, reached majority, by simp⟩

theorem Client.Moves.fence (moves : c.Moves n token now log event d sent)
    (held : ∀ fence returned released, c.phase = .holding fence returned released →
      ∃ e ∈ log, e.request.token = token ∧ ∃ value, e.Issued value ∧ fence = ⟨value.toNat⟩) :
    ∀ fence returned released, d.phase = .holding fence returned released →
      ∃ e ∈ log, e.request.token = token ∧ ∃ value, e.Issued value ∧ fence = ⟨value.toNat⟩ := by
  intro fence returned released stage
  cases moves with
  | take | pass => simp [Client.visit] at stage
  | abort | rollback => simp [Client.fail] at stage
  | allocate => simp at stage
  | hold waiting ran asked answered =>
    cases stage
    exact ⟨_, ran, by rw [asked], _, ⟨by rw [asked], _, answered⟩, rfl⟩
  | extend => exact held _ _ _ stage
  | release before =>
    cases stage
    exact held _ _ _ before

theorem Client.Gathered.later (gathered : c.Gathered now) (later : now ≤ next) :
    c.Gathered next := by
  obtain ⟨⟨collected, known, before⟩, left⟩ := gathered
  exact ⟨⟨collected, known, Nat.le_trans before later⟩, left⟩

namespace Ring.Fences
variable {s : Ring}

theorem wait (inv : s.Fences n) (delay : Nat) : (s.wait delay).Fences n where
  counter := inv.counter
  issued := inv.issued
  increasing := inv.increasing
  logged e ran := Nat.le_trans (inv.logged e ran) (Nat.le_add_right _ _)
  reached token c called enough := by
    obtain ⟨collected, known, before⟩ := inv.reached token c called enough
    exact ⟨collected, known, Nat.le_trans before (Nat.le_add_right _ _)⟩
  wired r member incr := by
    obtain ⟨node, c, called, gathered⟩ := inv.wired r member incr
    exact ⟨node, c, called, gathered.later (Nat.le_add_right _ _)⟩
  prompt := inv.prompt
  held := inv.held

/-- A new caller, or a later state of a known one. -/
theorem put (inv : s.Fences n)
    (keeps : ∀ c, s.clients token = some c → ∀ instant, c.Gathered instant →
      d.Gathered instant ∧ d.ends = c.ends)
    (reached : quorum n ≤ d.acquired.length → ∃ collected ∈ d.collected, collected ≤ s.now)
    (asks : ∀ r ∈ sent, r.command = .incr → r.token = token ∧ r.node = 0 ∧ d.Gathered s.now)
    (held : ∀ fence returned released, d.phase = .holding fence returned released →
      ∃ e ∈ s.log, e.request.token = token ∧ ∃ value, e.Issued value ∧ fence = ⟨value.toNat⟩) :
    (s.put token d sent).Fences n := by
  have present {other : String} {c : Client} {instant : Nat} (found : s.clients other = some c)
      (gathered : c.Gathered instant) :
      ∃ f, (s.put token d sent).clients other = some f ∧ f.Gathered instant ∧ f.ends = c.ends := by
    by_cases same : other = token
    · subst same
      exact ⟨d, Function.update_self .., keeps c found instant gathered⟩
    · exact ⟨c, (Function.update_of_ne same ..).trans found, gathered, rfl⟩
  refine ⟨inv.counter, inv.issued, inv.increasing, inv.logged, ?_, ?_, ?_, ?_⟩
  · intro other c found
    rcases Ring.put_clients found with ⟨rfl, rfl⟩ | ⟨_, found⟩
    · exact reached
    · exact inv.reached other c found
  · intro r member incr
    rcases List.mem_append.mp member with new | old
    · obtain ⟨rfl, node, gathered⟩ := asks r new incr
      exact ⟨node, d, Function.update_self .., gathered⟩
    · obtain ⟨node, c, found, gathered⟩ := inv.wired r old incr
      obtain ⟨f, found, gathered, _⟩ := present found gathered
      exact ⟨node, f, found, gathered⟩
  · intro e ran incr
    obtain ⟨c, found, gathered, before⟩ := inv.prompt e ran incr
    obtain ⟨f, found, gathered, ends⟩ := present found gathered
    exact ⟨f, found, gathered, ends ▸ before⟩
  · intro other c found
    rcases Ring.put_clients found with ⟨rfl, rfl⟩ | ⟨_, found⟩
    · exact held
    · exact inv.held other c found

theorem start (inv : s.Fences n) (fresh : s.clients token = none) (options : LockOptions) :
    (s.start n token options).Fences n := by
  have unknown {d : Client} (c : Client) (called : s.clients token = some c) (instant : Nat)
      (_ : c.Gathered instant) : d.Gathered instant ∧ d.ends = c.ends := by
    rw [fresh] at called
    contradiction
  unfold Ring.start
  split
  · exact inv.put unknown (by simp [Client.fail, quorum]) (by simp) (by simp [Client.fail])
  · refine inv.put unknown (by simp [Client.visit, quorum]) ?_ (by simp [Client.visit])
    intro r member incr
    simp only [Client.visit] at member
    split at member
    · cases List.mem_singleton.mp member
      contradiction
    · contradiction

theorem client (inv : s.Fences n) (called : s.clients token = some c)
    (moves : c.Moves n token s.now s.log event d sent) : (s.put token d sent).Fences n := by
  have reached := inv.reached token c called
  refine inv.put ?_ (moves.reached reached) (moves.asks reached)
    (moves.fence (inv.held token c called))
  intro same found instant
  cases Option.some.inj (called.symm.trans found)
  exact moves.gathered

/-- The counter after an execution, and what it issued. -/
theorem run_counter (inv : s.Fences n) (key : String) {r : Request} (sent : r ∈ s.wire) :
    let db := (s.run key r).nodes 0
    let e : Execution := ⟨r, s.now, ((r.command.script key r.token).exec s.now (s.nodes r.node)).1⟩
    (∀ value stop, db allocatorKey = some ⟨.string (.int value), stop⟩ → stop = none ∧ 0 ≤ value) ∧
    (∀ top, s.nodes 0 allocatorKey = some ⟨.string (.int top), none⟩ →
      (∃ next ≥ top, db allocatorKey = some ⟨.string (.int next), none⟩) ∧
      ∀ value, e.Issued value → top < value) ∧
    ∀ value, e.Issued value → 0 < value ∧ db allocatorKey = some ⟨.string (.int value), none⟩ := by
  obtain ⟨token, node, command⟩ := r
  by_cases incr : command = .incr
  · obtain ⟨rfl, _⟩ := inv.wired _ sent incr
    subst incr
    simp only [Ring.run, Function.update_self, Execution.Issued, true_and, Command.script,
      Script.exec_bind]
    rcases incr_counter s.now inv.counter with ⟨fault, refused⟩ | ⟨value, after, ran, stored, positive, next⟩
    · simp only [refused]
      refine ⟨inv.counter, ?_, by simp⟩
      exact fun top stored => ⟨⟨top, le_rfl, stored⟩, by simp⟩
    · simp only [ran, Script.exec_pure]
      refine ⟨?_, ?_, ?_⟩
      · intro given stop found
        cases Option.some.inj (stored.symm.trans found)
        exact ⟨rfl, positive.le⟩
      · intro top before
        have above := next top before
        refine ⟨⟨value, above.le, stored⟩, ?_⟩
        rintro given ⟨status, ⟨⟩⟩
        exact above
      · rintro given ⟨status, ⟨⟩⟩
        exact ⟨positive, stored⟩
  · have silent (value : Int) (reply : Except Fault (Nat × Int)) :
        ¬ Execution.Issued ⟨⟨token, node, command⟩, s.now, reply⟩ value := fun issued => incr issued.1
    have kept : KeepsCounter allocatorKey (s.nodes 0) ((s.run key ⟨token, node, command⟩).nodes 0) := by
      by_cases first : node = 0
      · subst first
        simpa only [Ring.run, Function.update_self] using command_keepsCounter incr
      · exact .inl (by simp only [Ring.run, Function.update_of_ne (Ne.symm first)])
    refine ⟨?_, ?_, fun value issued => absurd issued (silent value _)⟩
    · intro value stop found
      rcases kept with same | ⟨changed, _⟩
      · exact inv.counter value stop (same ▸ found)
      · exact absurd found (changed value stop)
    · intro top stored
      refine ⟨?_, fun value issued => absurd issued (silent value _)⟩
      rcases kept with same | ⟨_, absent⟩
      · exact ⟨top, le_rfl, same.trans stored⟩
      · exact absurd stored (absent top)

theorem run (inv : s.Fences n) {r : Request} (sent : r ∈ s.wire)
    (inTime : r.command = .incr → ∀ c ∈ s.clients r.token, s.now < c.ends) :
    (s.run key r).Fences n := by
  obtain ⟨counter, grows, issues⟩ := inv.run_counter key sent
  refine ⟨counter, ?_, ?_, ?_, inv.reached, ?_, ?_, ?_⟩
  · refine List.forall_mem_cons.mpr ⟨?_, ?_⟩
    · intro value issued
      obtain ⟨positive, stored⟩ := issues value issued
      exact ⟨positive, value, le_rfl, stored⟩
    · intro e ran value issued
      obtain ⟨positive, top, above, stored⟩ := inv.issued e ran value issued
      obtain ⟨⟨next, higher, stored⟩, _⟩ := grows top stored
      exact ⟨positive, next, le_trans above higher, stored⟩
  · refine List.pairwise_cons.mpr ⟨?_, inv.increasing⟩
    intro older ran value bound issued₁ issued₂
    obtain ⟨_, top, above, stored⟩ := inv.issued older ran value issued₁
    exact ⟨lt_of_le_of_lt above ((grows top stored).2 bound issued₂), inv.logged older ran⟩
  · exact List.forall_mem_cons.mpr ⟨Nat.le_refl _, inv.logged⟩
  · exact fun request member => inv.wired request (List.mem_of_mem_erase member)
  · refine List.forall_mem_cons.mpr ⟨?_, inv.prompt⟩
    intro incr
    obtain ⟨_, c, called, gathered⟩ := inv.wired r sent incr
    exact ⟨c, called, gathered, inTime incr c called⟩
  · intro token c called fence returned released stage
    obtain ⟨e, ran, issued⟩ := inv.held token c called fence returned released stage
    exact ⟨e, List.mem_cons_of_mem _ ran, issued⟩

end Ring.Fences

theorem Ring.fences_reachable {s : Ring} (reach : (ring n key).ReachableWhen Prompt s) :
    s.Fences n := by
  refine ring_invariant ?_ ?_ ?_ ?_ ?_ reach
  · rintro s ⟨wire, log, clients, counter⟩
    refine ⟨?_, by simp [log], by simp [log], by simp [log], by simp [clients], by simp [wire],
      by simp [log], by simp [clients]⟩
    intro value stop stored
    obtain ⟨given, positive, same⟩ := counter _ stored
    cases same
    exact ⟨rfl, positive⟩
  · exact fun s delay inv => inv.wait delay
  · exact fun s token options inv fresh => inv.start fresh options
  · exact fun s delay token event c d sent inv _ called moves => inv.client called moves
  · rintro s delay ⟨token, node, command⟩ inv prompt sent
    apply inv.run sent
    rintro rfl
    exact prompt

/-- Fences follow the order of leases in every run whose allocations all run
within their own round's lease window. -/
theorem fences_follow_grants {s : Ring} (reach : (ring n key).ReachableWhen Prompt s) :
    s.FencesFollow := by
  have inv := Ring.fences_reachable reach
  intro first second c d called₁ called₂ older newer _ _ _ _ collected held₁ held₂ gathered after
  obtain ⟨e, ran₁, rfl, value₁, issued₁, rfl⟩ := inv.held first c called₁ _ _ _ held₁
  obtain ⟨f, ran₂, rfl, value₂, issued₂, rfl⟩ := inv.held second d called₂ _ _ _ held₂
  obtain ⟨_, found₁, _, inTime⟩ := inv.prompt e ran₁ issued₁.1
  cases Option.some.inj (called₁.symm.trans found₁)
  obtain ⟨_, found₂, ⟨⟨_, known, before⟩, _⟩, _⟩ := inv.prompt f ran₂ issued₂.1
  cases Option.some.inj (called₂.symm.trans found₂)
  cases Option.some.inj (gathered.symm.trans known)
  have sooner : e.time < f.time := by omega
  have differ : f ≠ e := by
    rintro rfl
    omega
  have less : value₁ < value₂ := by
    rcases ordered inv.increasing differ ran₂ ran₁ with later | earlier
    · exact (later value₁ value₂ issued₁ issued₂).1
    · have := (earlier value₂ value₁ issued₂ issued₁).2
      omega
  have positive := (inv.issued f ran₂ value₂ issued₂).1
  constructor
  · simp only
    omega
  · intro resource accepted
    simp only [Resource.write_eq_none] at accepted ⊢
    omega

/-- Second lease after the first, each allocation at once. -/
theorem fences_follow_in_turn : ∃ s : Ring, s.FencesFollow ∧
    ∃ c ∈ s.clients "a", ∃ d ∈ s.clients "b", c.phase = .holding ⟨1⟩ 0 none ∧
      d.phase = .holding ⟨2⟩ 1000 none ∧ d.collected = some 1000 ∧ c.ends = 1000 := by
  obtain ⟨s, reach, facts⟩ := Machine.exists_reachableWhen Prompt
    (fun s : Ring => ∃ c ∈ s.clients "a", ∃ d ∈ s.clients "b", c.phase = .holding ⟨1⟩ 0 none ∧
      d.phase = .holding ⟨2⟩ 1000 none ∧ d.collected = some 1000 ∧ c.ends = 1000)
    (Ring.fresh_initial 3 "orders")
    (undisturbed 3 "a" oneSecond 0 ++ undisturbed 3 "b" oneSecond 1000)
    (by decide)
  exact ⟨s, fences_follow_grants reach, facts⟩

/-- Caller `a` passes the elapsed-time check at time 0 and its `INCR` runs after
its lease is over and `b` has collected a quorum and a fence: `a` gets the
greater fence. -/
theorem late_allocation_inverts_fences :
    ¬ ∀ s, (ring 3 "orders").Reachable s → s.FencesFollow := by
  intro always
  obtain ⟨s, reach, c, called₁, d, called₂, held₁, held₂, collected, ends⟩ :=
    Machine.exists_reachableWhen (fun _ _ => True)
      (fun s : Ring => ∃ c ∈ s.clients "a", ∃ d ∈ s.clients "b", c.phase = .holding ⟨2⟩ 1000 none ∧
        d.phase = .holding ⟨1⟩ 1000 none ∧ d.collected = some 1000 ∧ c.ends = 1000)
      (Ring.fresh_initial 3 "orders")
      (collects 3 "a" oneSecond 0 ++ undisturbed 3 "b" oneSecond 1000 ++ allocates "a")
      (by decide)
  have ordered := always s reach _ _ c d called₁ called₂ _ _ _ _ _ _ _ held₁ held₂ collected ends.le
  exact absurd ordered.1 (by decide)

end Palisade.Redlock
