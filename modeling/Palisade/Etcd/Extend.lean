import Palisade.Etcd.Grants

/-! How long an extended lock of the etcd backend is safe from other clients. The call takes
no time: the keepalive is answered at the instant at which `extend` returns. -/
namespace Palisade.Etcd
open Transition

namespace Cluster
variable {s t : Cluster} {action : Action} {i fence : Nat} {call : Call} {lease : Int} {server : Server}

theorem Moves.turn (moved : s.Moves action t) : s.Turn t.server := by
  cases moved with
  | outside turn | advance _ turn => exact turn
  | begin => exact .same
  | grant here granting fresh => exact .lease (.inl fresh)

theorem Moves.time (moved : s.Moves action t) : s.now ≤ t.now := by
  cases moved with
  | outside _ _ _ _ time => exact time
  | begin | grant => exact Nat.le_refl _
  | advance _ _ _ _ _ time => exact time.ge

/-- The call has a handle that is neither released nor dropped. -/
def Held (s : Cluster) (i fence : Nat) (key token : String) (lease : Int) : Prop :=
  ∃ poisoned, s.calls[i]? = some ⟨key, token, some lease, .holding fence poisoned⟩

theorem Moves.held {key token : String} (moved : s.Moves action t) (kept : action ≠ .release i)
    (held : s.Held i fence key token lease) : t.Held i fence key token lease := by
  obtain ⟨poisoned, here⟩ := held
  cases moved with
  | outside _ calls => exact ⟨poisoned, calls ▸ here⟩
  | begin =>
    have inside := (List.getElem?_eq_some_iff.mp here).1
    exact ⟨poisoned, (List.getElem?_append_left inside).trans here⟩
  | @grant j _ other _ there granting =>
    have elsewhere : j ≠ i := by
      rintro rfl
      cases there.symm.trans here
      cases granting
    exact ⟨poisoned, (List.getElem?_set_ne elsewhere).trans here⟩
  | @advance _ _ j other stage there _ calls _ _ _ follows =>
    by_cases same : j = i
    · subst same
      obtain rfl := Option.some.inj (there.symm.trans here)
      obtain released | ⟨after, rfl⟩ := follows.stays fence poisoned rfl
      · exact absurd released kept
      · have inside := (List.getElem?_eq_some_iff.mp here).1
        exact ⟨after, calls ▸ List.getElem?_set_self inside⟩
    · exact ⟨poisoned, calls ▸ (List.getElem?_set_ne same).trans here⟩

/-- Nothing that a call under way has given up may yet take effect, and the key of a handle
is there as long as its lease. -/
structure Settled (s : Cluster) : Prop where
  known : ∀ request ∈ s.late, request.call < s.calls.length
  quiet : ∀ (i : Nat) (call : Call), s.calls[i]? = some call → call.stage.fresh = true →
    ∀ request ∈ s.late, request.call ≠ i
  stored : ∀ i fence key token lease, s.Held i fence key token lease → s.server.leases lease ≠ none →
    ⟨key, token, lease, i⟩ ∈ s.server.items

/-- While its handle is there, a call asks for nothing. -/
theorem Settled.idle {key token : String} {request : Request} (settled : s.Settled)
    (held : s.Held i fence key token lease) (here : s.calls[i]? = some call) (named : request.call = i) :
    ¬ s.Asks call request := by
  obtain ⟨poisoned, found⟩ := held
  obtain rfl := Option.some.inj (found.symm.trans here)
  rintro (late | asks)
  · exact settled.quiet i _ found rfl request late named
  · cases request with
    | acquire => cases asks
    | release =>
      obtain ⟨_, asks⟩ := asks
      cases asks
    | revoke => cases asks

/-- Key and lease of a handle stay, and the lease can only be renewed, unless it runs out. -/
theorem Turn.keeps {key token : String} (inv : s.Inv) (settled : s.Settled) (turn : s.Turn server)
    (held : s.Held i fence key token lease) {old : Lease} (leased : s.server.leases lease = some old) :
    (server.leases lease = none ∧ old.deadline ≤ s.now) ∨
    ⟨key, token, lease, i⟩ ∈ server.items ∧ ∃ next, server.leases lease = some next ∧ next.ttl = old.ttl ∧
      (next.deadline = old.deadline ∨ next.deadline = s.now + nanos old.ttl) := by
  have stored := settled.stored i fence key token lease held (by rw [leased]; nofun)
  obtain ⟨poisoned, here⟩ := held
  have untouched {after : Server} (items : ⟨key, token, lease, i⟩ ∈ after.items)
      (leases : after.leases lease = s.server.leases lease) :
      ⟨key, token, lease, i⟩ ∈ after.items ∧ ∃ next, after.leases lease = some next ∧ next.ttl = old.ttl ∧
        (next.deadline = old.deadline ∨ next.deadline = s.now + nanos old.ttl) :=
    ⟨items, old, leases.trans leased, rfl, .inl rfl⟩
  cases turn with
  | same | write => exact .inr (untouched stored rfl)
  | @lease other seconds known =>
    by_cases same : lease = other
    · subst same
      obtain fresh | ⟨before, found, rfl⟩ := known
      · exact absurd (inv.issued i _ lease here rfl) fresh
      · cases found.symm.trans leased
        exact .inr ⟨stored, _, Function.update_self .., Server.granted_ttl .., .inr (Server.granted_deadline ..)⟩
    · exact .inr (untouched stored (Function.update_of_ne same ..))
  | put => exact .inr (untouched (List.mem_cons_of_mem _ stored) rfl)
  | @release j other there asks found =>
    obtain ⟨item, member, named, valued⟩ := found
    refine .inr (untouched (List.mem_filter.mpr ⟨stored, ?_⟩) rfl)
    simp only [Bool.not_eq_true', decide_eq_false_iff_not]
    intro same
    have own := inv.ledger.unique _ stored item member (same.trans named.symm)
    subst own
    obtain rfl := inv.tokens i j _ other here there valued
    exact settled.idle ⟨poisoned, here⟩ there rfl asks
  | @revoke j other ended there has asks =>
    have differs : lease ≠ ended := by
      rintro rfl
      obtain rfl := inv.leases i j _ other lease here there rfl has
      exact settled.idle ⟨poisoned, here⟩ there rfl asks
    refine .inr (untouched (List.mem_filter.mpr ⟨stored, ?_⟩) (Function.update_of_ne differs ..))
    simpa using differs
  | @expire ended before found due =>
    by_cases same : lease = ended
    · subst same
      cases found.symm.trans leased
      exact .inl ⟨Function.update_self .., due⟩
    · refine .inr (untouched (List.mem_filter.mpr ⟨stored, ?_⟩) (Function.update_of_ne same ..))
      simpa using same

/-- A lease that has ended does not come back. -/
theorem Turn.ended {key token : String} (inv : s.Inv) (turn : s.Turn server)
    (held : s.Held i fence key token lease) (ended : s.server.leases lease = none) :
    server.leases lease = none := by
  obtain ⟨poisoned, here⟩ := held
  have dropped (other : Int) : Function.update s.server.leases other none lease = none := by
    by_cases same : lease = other
    · exact same ▸ Function.update_self ..
    · exact (Function.update_of_ne same ..).trans ended
  cases turn with
  | same | write | put | release => exact ended
  | @lease other seconds known =>
    have differs : lease ≠ other := by
      rintro rfl
      obtain fresh | ⟨before, found, _⟩ := known
      · exact fresh (inv.issued i _ lease here rfl)
      · cases ended.symm.trans found
    exact (Function.update_of_ne differs ..).trans ended
  | revoke => exact dropped _
  | expire => exact dropped _

namespace Settled

/-- The key of a handle after the store has turned. -/
theorem turn {key token : String} (settled : s.Settled) (inv : s.Inv) (turned : s.Turn server)
    (held : s.Held i fence key token lease) (leased : server.leases lease ≠ none) :
    ⟨key, token, lease, i⟩ ∈ server.items := by
  cases before : s.server.leases lease with
  | none => exact absurd (turned.ended inv held before) leased
  | some old =>
    obtain ⟨gone, _⟩ | ⟨stored, _⟩ := turned.keeps inv settled held before
    · exact absurd gone leased
    · exact stored

theorem act (settled : s.Settled) (inv : s.Inv) (stepped : s.act action = some t) : t.Settled := by
  have moved := act_moves stepped
  have turned := moved.turn
  cases moved with
  | outside _ calls _ late =>
    refine ⟨fun request member => calls ▸ settled.known request (late member), ?_, ?_⟩
    · intro i call here fresh request member
      exact settled.quiet i call (calls ▸ here) fresh request (late member)
    · rintro i fence key token lease ⟨poisoned, here⟩ leased
      exact settled.turn inv turned ⟨poisoned, calls ▸ here⟩ leased
  | begin =>
    refine ⟨fun request member => ?_, ?_, ?_⟩
    · have inside := settled.known request member
      rw [List.length_append]
      omega
    · intro i call here fresh request member
      obtain before | ⟨rfl, _⟩ := concat_eq_some here
      · exact settled.quiet i call before fresh request member
      · exact (settled.known request member).ne
    · rintro i fence key token lease ⟨poisoned, here⟩ leased
      obtain before | ⟨_, new⟩ := concat_eq_some here
      · exact settled.turn inv turned ⟨poisoned, before⟩ leased
      · cases new
  | @grant j _ other _ there granting =>
    refine ⟨fun request member => ?_, ?_, ?_⟩
    · rw [List.length_set]
      exact settled.known request member
    · intro i call here fresh request member
      obtain ⟨rfl, _⟩ | ⟨_, before⟩ := set_eq_some there here
      · exact settled.quiet i other there (by rw [granting]; rfl) request member
      · exact settled.quiet i call before fresh request member
    · rintro i fence key token lease ⟨poisoned, here⟩ leased
      obtain ⟨_, new⟩ | ⟨_, before⟩ := set_eq_some there here
      · cases new
      · exact settled.turn inv turned ⟨poisoned, before⟩ leased
  | @advance _ _ j other stage there _ calls _ late _ follows =>
    refine ⟨fun request member => ?_, ?_, ?_⟩
    · rw [calls, List.length_set]
      obtain before | ⟨rfl, _⟩ := late request member
      · exact settled.known request before
      · exact (List.getElem?_eq_some_iff.mp there).1
    · intro i call here fresh request member
      obtain ⟨rfl, rfl⟩ | ⟨elsewhere, before⟩ := set_eq_some there (calls ▸ here)
      · obtain earlier | ⟨_, spent⟩ := late request member
        · exact settled.quiet i other there (follows.fresh fresh) request earlier
        · exact absurd fresh (by simp [spent])
      · obtain earlier | ⟨same, _⟩ := late request member
        · exact settled.quiet i call before fresh request earlier
        · exact fun named => elsewhere (named.symm.trans same)
    · rintro i fence key token lease ⟨poisoned, here⟩ leased
      obtain ⟨rfl, new⟩ | ⟨_, before⟩ := set_eq_some there (calls ▸ here)
      · obtain ⟨name, secret, own, before⟩ := other
        cases new
        obtain ⟨earlier, rfl⟩ | stored := follows.enters fence poisoned rfl
        · exact settled.turn inv turned ⟨earlier, there⟩ leased
        · exact stored lease rfl
      · exact settled.turn inv turned ⟨poisoned, before⟩ leased

end Settled

theorem settled_reachable (reach : cluster.Reachable s) : s.Settled := by
  let Holds (s : Cluster) : Prop := s.Inv ∧ s.Settled
  have holds : Holds s := by
    refine reach.invariant ?_ fun s action t kept stepped =>
      ⟨kept.1.act stepped, kept.2.act kept.1 stepped⟩
    intro s first
    refine ⟨inv_reachable (.initial first), ?_⟩
    obtain ⟨_, _, calls, late⟩ := first
    refine ⟨by simp [late], by simp [late], ?_⟩
    rintro i fence key token lease ⟨poisoned, here⟩
    simp [calls] at here
  exact holds.2

theorem keepAlive_of_found {old : Lease} (found : s.server.leases lease = some old) :
    s.keepAlive i call lease = (old.ttl, { s with server := s.server.grant s.now lease old.ttl }.set i call
      (call.stage.answered old.ttl)) := by
  simp only [Cluster.keepAlive, Server.keepAlive, found]

/-- What an `extend` that succeeds has done. -/
theorem extend_ok {ttl : Duration} {attempt : KeepAlive} (extended : s.extend i ttl attempt = some (.ok (), t))
    (here : s.calls[i]? = some call) (has : call.lease = some lease) {old : Lease}
    (leased : s.server.leases lease = some old) :
    (∃ fence, t.Held i fence call.key call.token lease) ∧ t.now = s.now ∧
      t.server.leases lease = some (Server.granted s.now old.ttl) := by
  simp only [Cluster.extend, Option.bind_eq_bind, Option.bind_eq_some_iff] at extended
  obtain ⟨found, there, own, leases, extended⟩ := extended
  obtain rfl := Option.some.inj (here.symm.trans there)
  obtain rfl := Option.some.inj (has.symm.trans leases)
  have inside := (List.getElem?_eq_some_iff.mp here).1
  split at extended
  · next fence poisoned staged =>
    split at extended
    · cases extended
    · split at extended
      · cases extended
      · cases extended
      · cases extended
      · obtain ⟨_, rfl⟩ := Prod.mk.inj (Option.some.inj extended)
        obtain ⟨key, token, own, stage⟩ := call
        subst has staged
        simp only [keepAlive_of_found leased]
        exact ⟨⟨fence, _, List.getElem?_set_self inside⟩, rfl, Function.update_self ..⟩
  · cases extended
  · cases extended
  · cases extended
  · contradiction

/-- Only an acquire of a free key puts anything, at the instant of the step. -/
theorem Turn.log (turn : s.Turn server) : ∃ newer, server.log = newer ++ s.server.log ∧
    ∀ item fence instant, .put item fence instant ∈ newer →
      instant = s.now ∧ ∀ other ∈ s.server.items, other.key ≠ item.key := by
  have deletions (items : List Item) (cause : Cause) (item : Item) (fence instant : Nat) :
      Record.put item fence instant ∉ items.map (Record.deleted · cause) := by
    simp
  cases turn with
  | same | write | lease => exact ⟨[], rfl, nofun⟩
  | put here has asks free =>
    refine ⟨[_], rfl, fun item fence instant member => ?_⟩
    cases List.mem_singleton.mp member
    exact ⟨rfl, free⟩
  | release => exact ⟨_, rfl, fun _ _ _ member => absurd member (deletions _ _ _ _ _)⟩
  | revoke => exact ⟨_, rfl, fun _ _ _ member => absurd member (deletions _ _ _ _ _)⟩
  | expire => exact ⟨_, rfl, fun _ _ _ member => absurd member (deletions _ _ _ _ _)⟩

/-- Runs that go on from a state. -/
def onwards (s : Cluster) : Machine Cluster Action where
  initial t := t = s
  step := Cluster.act

/-- For `seconds` from the start the lease cannot run out, and nobody puts the key. -/
structure Guarded (start : Cluster) (i fence seconds : Nat) (key token : String) (lease : Int) (u : Cluster) :
    Prop where
  inv : u.Inv
  settled : u.Settled
  time : start.now ≤ u.now
  held : u.Held i fence key token lease
  leased : u.now < start.now + nanos seconds → ∃ old, u.server.leases lease = some old ∧ old.ttl = seconds ∧
    start.now + nanos seconds ≤ old.deadline
  log : ∃ newer, u.server.log = newer ++ start.server.log ∧
    ∀ item fence instant, .put item fence instant ∈ newer → item.key = key → start.now + nanos seconds ≤ instant

theorem Guarded.act {start u v : Cluster} {seconds : Nat} {key token : String}
    (guarded : Guarded start i fence seconds key token lease u) (kept : action ≠ .release i)
    (stepped : u.act action = some v) : Guarded start i fence seconds key token lease v := by
  have moved := act_moves stepped
  have later := moved.time
  have before := guarded.time
  refine ⟨guarded.inv.act stepped, guarded.settled.act guarded.inv stepped, by omega, moved.held kept guarded.held,
    ?_, ?_⟩
  · intro early
    obtain ⟨old, found, same, runs⟩ := guarded.leased (by omega)
    obtain ⟨_, due⟩ | ⟨_, next, renewed, length, deadline⟩ :=
      moved.turn.keeps guarded.inv guarded.settled guarded.held found
    · omega
    · refine ⟨next, renewed, length.trans same, ?_⟩
      rw [same] at deadline
      omega
  · obtain ⟨newer, split, safe⟩ := guarded.log
    obtain ⟨latest, longer, puts⟩ := moved.turn.log
    refine ⟨latest ++ newer, by rw [longer, split, List.append_assoc], fun item fence instant member named => ?_⟩
    obtain new | known := List.mem_append.mp member
    · obtain ⟨rfl, free⟩ := puts item fence instant new
      -- A put before the deadline would meet the key of the handle.
      by_contra early
      obtain ⟨old, found, _⟩ := guarded.leased (by omega)
      have stored := guarded.settled.stored _ _ _ _ _ guarded.held (by rw [found]; nofun)
      exact free _ stored named.symm
    · exact safe item fence instant known named

end Cluster

/-- Whenever a handle whose lease was granted for `seconds` is extended by `ttl`, and is not
released and has no watchdog, nobody else acquires its key before `ttl` has passed. -/
def ExtendGuards (seconds : Nat) (ttl : Duration) : Prop :=
  ∀ (s t u : Cluster) (i : Nat) (call : Call) (lease : Int) (old : Lease) (attempt : KeepAlive),
    cluster.Reachable s → s.calls[i]? = some call → call.lease = some lease →
    s.server.leases lease = some old → old.ttl = seconds → s.extend i ttl attempt = some (.ok (), t) →
    t.onwards.ReachableWhen (fun _ action => action ≠ .release i ∧ action ≠ .keepAlive i) u →
    ∃ newer, u.server.log = newer ++ t.server.log ∧ ∀ item fence instant,
      .put item fence instant ∈ newer → item.key = call.key → s.now + ttl.nanos ≤ instant

theorem extend_guards_of_le {seconds : Nat} {ttl : Duration} (short : ttl.nanos ≤ nanos seconds) :
    ExtendGuards seconds ttl := by
  intro s t u i call lease old attempt reach here has leased rfl extended run
  obtain ⟨⟨fence, held⟩, now, renewed⟩ := Cluster.extend_ok extended here has leased
  have stepped : cluster.step s (.extend i ttl attempt) = some t := by
    simp only [cluster, Cluster.act, extended, Option.map_some]
  have next : cluster.Reachable t := .next reach trivial stepped
  have guarded : Cluster.Guarded t i fence old.ttl call.key call.token lease u := by
    refine run.invariant ?_ fun v action w guarded allowed moved => guarded.act allowed.1 moved
    rintro v rfl
    refine ⟨Cluster.inv_reachable next, Cluster.settled_reachable next, Nat.le_refl _, held, fun _ => ?_, [], rfl, by simp⟩
    exact ⟨_, renewed, Server.granted_ttl .., by rw [Server.granted_deadline, now]⟩
  obtain ⟨newer, log, safe⟩ := guarded.log
  refine ⟨newer, log, fun item fence instant member named => ?_⟩
  have late := safe item fence instant member named
  omega

namespace Cluster
variable {s : Cluster} {key token : String} {lease : Int} {i seconds : Nat}

/-- The state of a call that has just taken a free key. -/
def takes (s : Cluster) (key token : String) (lease : Int) (seconds : Nat) : Cluster :=
  { s with
    server := (s.server.grant s.now lease seconds).put s.now ⟨key, token, lease, s.calls.length⟩
    calls := s.calls ++ [⟨key, token, some lease, .holding (s.server.revision + 1) false⟩]
    issued := lease :: s.issued }

theorem takes_leases : (s.takes key token lease seconds).server.leases lease = some (Server.granted s.now seconds) :=
  Function.update_self ..

/-- A call takes a free key at once. -/
theorem takes_reachable {m : Machine Cluster Action} {ok : Cluster → Action → Prop} (steps : m.step = Cluster.act)
    (free : ∀ other ∈ s.server.items, other.key ≠ key) (fresh : ∀ call ∈ s.calls, call.token ≠ token)
    (unissued : lease ∉ s.issued) (positive : 0 < seconds)
    (allowed : ∀ t, ok t (.begin key token) ∧ ok t (.grant s.calls.length lease seconds) ∧
      ok t (.acquire s.calls.length)) (reach : m.ReachableWhen ok s) :
    m.ReachableWhen ok (s.takes key token lease seconds) := by
  let begun : Cluster := { s with calls := s.calls ++ [⟨key, token, none, .granting⟩] }
  have begins : m.step s (.begin key token) = some begun := by
    rw [steps]
    exact if_pos (by simpa using fresh)
  let granted : Cluster := { s with
    server := s.server.grant s.now lease seconds
    calls := s.calls ++ [⟨key, token, some lease, .acquiring⟩]
    issued := lease :: s.issued }
  have grants : m.step begun (.grant s.calls.length lease seconds) = some granted := by
    rw [steps]
    simp [Cluster.act, begun, granted, Cluster.grant, unissued, positive]
  have occupied : ¬ (s.server.items.any fun other => decide (other.key = key)) = true := by
    simpa using free
  have answer : granted.server.acquire s.now ⟨key, token, lease, s.calls.length⟩ =
      (.succeeded (s.server.revision + 1), granted.server.put s.now ⟨key, token, lease, s.calls.length⟩) := by
    refine (if_neg occupied).trans (if_neg ?_)
    simp [granted, Server.grant]
  have acquires : m.step granted (.acquire s.calls.length) = some (s.takes key token lease seconds) := by
    have last : granted.calls[s.calls.length]? = some ⟨key, token, some lease, .acquiring⟩ := by simp [granted]
    rw [steps]
    simp only [Cluster.act, last, Option.bind_eq_bind, Option.bind_some, Cluster.acquire, Cluster.item]
    simp [granted, answer, Cluster.set, acquired, takes]
  exact .next (.next (.next reach (allowed _).1 begins) (allowed _).2.1 grants) (allowed _).2.2 acquires

theorem extend_answered {call : Call} {fence : Nat} {old : Lease} (here : s.calls[i]? = some call)
    (has : call.lease = some lease) (holding : call.stage = .holding fence false)
    (found : s.server.leases lease = some old) (positive : 0 < old.ttl) (ttl : Duration) :
    s.extend i ttl .answered = some (.ok (), { s with server := s.server.grant s.now lease old.ttl }) := by
  have same : call.stage.answered old.ttl = call.stage := by
    rw [holding]
    simp [Stage.answered, positive.ne']
  have unchanged : s.calls.set i call = s.calls := by
    obtain ⟨inside, rfl⟩ := List.getElem?_eq_some_iff.mp here
    exact List.set_getElem_self inside
  simp only [Cluster.extend, here, has, holding, Option.bind_eq_bind, Option.bind_some, keepAlive_of_found found]
  simp [Cluster.set, ← holding, same, unchanged, positive]

theorem act_expire {old : Lease} (found : s.server.leases lease = some old) (due : old.deadline ≤ s.now) :
    s.act (.expire lease) = some { s with server := s.server.drop lease (.expired lease) } := by
  simp only [Cluster.act, found, Option.bind_eq_bind, Option.bind_some, if_pos due]

end Cluster

/-- A lease shorter than `ttl` runs out, and another call takes the lock. -/
theorem extend_unguarded {seconds : Nat} (positive : 0 < seconds) {ttl : Duration} (long : nanos seconds < ttl.nanos) :
    ¬ ExtendGuards seconds ttl := by
  intro guards
  let taken := Cluster.empty.takes "k" "a" 1 seconds
  have reach : cluster.Reachable taken :=
    Cluster.takes_reachable rfl (List.forall_mem_nil _) (List.forall_mem_nil _) List.not_mem_nil positive
      (fun _ => ⟨trivial, trivial, trivial⟩) (.initial Cluster.empty_initial)
  have leased : taken.server.leases 1 = some (Server.granted 0 seconds) := Cluster.takes_leases
  have extended := Cluster.extend_answered (s := taken) (i := 0) rfl rfl rfl leased positive ttl
  let renewed : Cluster := { taken with server := taken.server.grant 0 1 seconds }
  let ok (_ : Cluster) (action : Action) : Prop := action ≠ .release 0 ∧ action ≠ .keepAlive 0
  let waited : Cluster := { renewed with now := nanos seconds }
  have waits : renewed.onwards.ReachableWhen ok waited := by
    have allowed : ok renewed (.wait (nanos seconds)) := by simp [ok]
    refine .next (.initial rfl) allowed ?_
    simp [Cluster.onwards, Cluster.act, waited, renewed, taken, Cluster.takes, Cluster.empty]
  have found : waited.server.leases 1 = some (Server.granted 0 seconds) := by
    simp [waited, renewed, Server.grant]
  let expired : Cluster := { waited with server := waited.server.drop 1 (.expired 1) }
  have expires : renewed.onwards.ReachableWhen ok expired := by
    have allowed : ok waited (.expire 1) := by simp [ok]
    refine .next waits allowed (Cluster.act_expire found ?_)
    rw [Server.granted_deadline, Nat.zero_add]
  have stolen : renewed.onwards.ReachableWhen ok (expired.takes "k" "b" 2 seconds) := by
    refine Cluster.takes_reachable rfl ?_ ?_ ?_ positive ?_ expires
    · exact List.forall_mem_nil _
    · simp [expired, waited, renewed, taken, Cluster.takes, Cluster.empty]
    · simp [expired, waited, renewed, taken, Cluster.takes, Cluster.empty]
    · simp [ok]
  obtain ⟨newer, log, safe⟩ := guards taken renewed _ 0 _ 1 _ .answered reach rfl rfl leased rfl extended stolen
  have split : newer = [.put ⟨"k", "b", 2, 1⟩ 3 (nanos seconds), .deleted ⟨"k", "a", 1, 0⟩ (.expired 1)] := by
    have same : (expired.takes "k" "b" 2 seconds).server.log =
      [.put ⟨"k", "b", 2, 1⟩ 3 (nanos seconds), .deleted ⟨"k", "a", 1, 0⟩ (.expired 1)] ++ renewed.server.log := rfl
    exact List.append_cancel_right (log.symm.trans same)
  have early := safe ⟨"k", "b", 2, 1⟩ 3 (nanos seconds) (by simp [split]) rfl
  have start : taken.now = 0 := rfl
  omega

/-- The `ttl` that `extend` is given plays no part: the key is safe for the granted lease. -/
theorem extend_guards_iff {seconds : Nat} (positive : 0 < seconds) (ttl : Duration) :
    ExtendGuards seconds ttl ↔ ttl.nanos ≤ nanos seconds := by
  refine ⟨fun guards => ?_, extend_guards_of_le⟩
  by_contra long
  exact extend_unguarded positive (Nat.lt_of_not_le long) guards

/-- A lease of ten seconds covers five, and not sixty. -/
theorem extend_guards_five :
    ExtendGuards 10 (.fromMillis 5000) ∧ ¬ ExtendGuards 10 (.fromMillis 60000) :=
  ⟨(extend_guards_iff (by decide) _).mpr (by decide),
    fun guards => absurd ((extend_guards_iff (by decide) _).mp guards) (by decide)⟩

/-- A handle with a lease of ten seconds that is extended by a minute can be lost after ten
seconds. -/
theorem extend_minute_unguarded :
    ¬ ∀ (seconds : Nat) (ttl : Duration), 0 < seconds → minTtl.nanos ≤ ttl.nanos → ExtendGuards seconds ttl := by
  intro guards
  exact extend_unguarded (by decide) (by decide) (guards 10 (.fromMillis 60000) (by decide) (by decide))

end Palisade.Etcd
