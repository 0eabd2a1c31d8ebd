import Palisade.Testing.Sim

/-! The simulator against the checker. Up to the first injected fault the holds the
checker counts are the store's entry, and the fault itself is rejected. -/
namespace Palisade.Testing
open Transition Monitor

namespace Sim
variable {sc : Scenario} {s t : Sim} {w : Nat}

/-- What an entry of the store and the worker that holds it agree on. -/
def Owned (ttlMs : Nat) (e : Entry) (wakeAt : Nat) : State → Prop
  | .holding fence releaseAt _ _ => e.fence = fence ∧ e.expiresMs ≤ releaseAt + ttlMs
  | .paused fence _ => e.fence = fence ∧ e.expiresMs < wakeAt
  | .idle _ | .done => True

/-- The invariant of the simulator, also of one with faults. -/
structure Sound (sc : Scenario) (s : Sim) : Prop where
  timed : Timed s.events
  past : ∀ e ∈ s.events, e.tMs ≤ s.store.nowMs
  cas : s.store.brokenCas = sc.brokenCas
  fencing : s.store.brokenFencing = sc.brokenFencing
  owned : ∀ e, s.store.entry = some e → Owned sc.ttlMs e (s.wakeAt e.holder) (s.states e.holder)

theorem Sound.start : Sound sc (start sc) where
  timed := List.Pairwise.nil
  past := by simp [Sim.start]
  cas := rfl
  fencing := rfl
  owned e found := by simp [Sim.start] at found

theorem Sound.wake (sound : Sound sc s) (w : Nat) : Sound sc (s.wake w) where
  timed := sound.timed
  past e member := Nat.le_trans (sound.past e member) (Nat.le_max_left _ _)
  cas := sound.cas
  fencing := sound.fencing
  owned := sound.owned

theorem Sound.emit (sound : Sound sc s) (w : Nat) (kind : EventKind) (fence : Nat) :
    Sound sc (s.emit w kind fence) where
  timed := List.pairwise_append.mpr
    ⟨sound.timed, List.pairwise_singleton _ _, by simpa [Sim.emit] using sound.past⟩
  past := by
    simp only [Sim.emit, List.forall_mem_append, List.forall_mem_singleton]
    exact ⟨sound.past, Nat.le_refl _⟩
  cas := sound.cas
  fencing := sound.fencing
  owned := sound.owned

/-- One worker changes its state. -/
theorem Sound.set (sound : Sound sc s) {wakeAt : Nat} {state : State}
    (own : ∀ e, s.store.entry = some e → e.holder = w → Owned sc.ttlMs e wakeAt state) :
    Sound sc (s.set w wakeAt state) where
  timed := sound.timed
  past := sound.past
  cas := sound.cas
  fencing := sound.fencing
  owned e found := by
    by_cases mine : e.holder = w
    · simpa only [Sim.set, mine, Function.update_self] using own e found mine
    · simpa only [Sim.set, Function.update_of_ne mine] using sound.owned e found

/-- What writes and releases do to the store. -/
structure Keeps (before after : SimStore) : Prop where
  nowMs : after.nowMs = before.nowMs
  brokenCas : after.brokenCas = before.brokenCas
  brokenFencing : after.brokenFencing = before.brokenFencing
  entry : ∀ e, after.entry = some e → before.entry = some e

theorem Sound.keeps (sound : Sound sc s) {rng : Rng} {store : SimStore} (keeps : Keeps s.store store) :
    Sound sc { s with rng, store } where
  timed := sound.timed
  past e member := by
    rw [keeps.nowMs]
    exact sound.past e member
  cas := keeps.brokenCas.trans sound.cas
  fencing := keeps.brokenFencing.trans sound.fencing
  owned e found := sound.owned e (keeps.entry e found)

theorem keeps_fencedWrite (store : SimStore) (w fence : Nat) : Keeps store (store.fencedWrite w fence).2 := by
  unfold SimStore.fencedWrite
  split
  · exact ⟨rfl, rfl, rfl, fun _ => id⟩
  · split
    · exact ⟨rfl, rfl, rfl, fun _ => id⟩
    · split <;> exact ⟨rfl, rfl, rfl, fun _ => id⟩

theorem keeps_release (store : SimStore) (w fence : Nat) : Keeps store (store.release w fence).2 := by
  unfold SimStore.release
  split
  · exact ⟨rfl, rfl, rfl, fun _ found => by simp at found⟩
  · exact ⟨rfl, rfl, rfl, fun _ => id⟩

theorem Sound.write (sound : Sound sc s) (w fence : Nat) : Sound sc (s.write w fence) :=
  (sound.keeps (keeps_fencedWrite s.store w fence)).emit w _ fence

theorem Sound.acts (sound : Sound sc s) (acts : Acts sc w s t) : Sound sc t := by
  cases acts with
  | finish _ => exact sound.set fun _ _ _ => trivial
  | skip _ => exact (sound.keeps ⟨rfl, rfl, rfl, fun _ => id⟩).set fun _ _ _ => trivial
  | deny _ _ => exact ((sound.keeps ⟨rfl, rfl, rfl, fun _ => id⟩).emit w _ _).set fun _ _ _ => trivial
  | grant _ _ late =>
    refine ⟨(sound.emit w .grant (s.store.fenceCounter + 1)).timed,
      (sound.emit w .grant (s.store.fenceCounter + 1)).past, sound.cas, sound.fencing, ?_⟩
    rintro e ⟨⟩
    simp only [Sim.set, Function.update_self]
    exact ⟨rfl, by dsimp only; omega⟩
  | freeze state =>
    refine sound.set fun e found mine => ?_
    have own := sound.owned e found
    rw [mine, state] at own
    exact ⟨own.1, by have := own.2; omega⟩
  | leave _ =>
    exact (((sound.write w _).keeps (keeps_release _ _ _)).emit w _ _).set fun _ _ _ => trivial
  | await state _ =>
    refine sound.set fun e found mine => ?_
    have own := sound.owned e found
    rw [mine, state] at own
    exact own
  | resume _ =>
    exact (((sound.write w _).keeps (keeps_release _ _ _)).emit w _ _).set fun _ _ _ => trivial

theorem Sound.reachable (reach : (simulation sc).Reachable s) : Sound sc s := by
  refine Machine.Reachable.invariant ?_ ?_ reach
  · rintro s rfl
    exact .start
  · intro s _ t sound stepped
    obtain ⟨w, _, _, acts⟩ := step_acts stepped
    exact (sound.wake w).acts acts

/-! The checker's holds and the store's entry. -/

/-- The entry as the checker would count it. -/
def counted (store : SimStore) : List (Nat × Nat) :=
  store.entry.toList.map fun e => (e.holder, e.expiresMs)

/-- The state of the checker after the events so far, as it matters from now on. -/
structure Agrees (c : Checker) (store : SimStore) : Prop where
  active : ∀ t, store.nowMs ≤ t → Checker.retain t c.active = Checker.retain t (counted store)
  accepted : store.brokenFencing = false → c.lastAcceptedFence = store.lastAcceptedFence

variable {c : Checker} {store : SimStore}

theorem Agrees.free (agrees : Agrees c store) (free : store.live = false) :
    Checker.retain store.nowMs c.active = [] := by
  rw [agrees.active _ (Nat.le_refl _)]
  cases found : store.entry with
  | none => simp [counted, found, Checker.retain]
  | some e => simpa [counted, found, Checker.retain, SimStore.live] using free

theorem Agrees.taken (agrees : Agrees c store) (live : store.live = true) :
    ∃ e, store.entry = some e ∧ Checker.retain store.nowMs c.active = [(e.holder, e.expiresMs)] := by
  obtain ⟨e, found, running⟩ := Option.any_eq_true _ _ |>.mp live
  refine ⟨e, found, ?_⟩
  rw [agrees.active _ (Nat.le_refl _)]
  simpa [counted, found, Checker.retain] using running

/-- What the checker finds of a worker. -/
theorem Agrees.member (agrees : Agrees c store) (w : Nat) :
    (∃ hold ∈ Checker.retain store.nowMs c.active, hold.1 = w) ↔
      ∃ e, store.entry = some e ∧ e.holder = w ∧ store.nowMs < e.expiresMs := by
  rw [agrees.active _ (Nat.le_refl _)]
  cases found : store.entry with
  | none => simp [counted, found, Checker.retain]
  | some e => simp [counted, found, Checker.retain, and_comm]

/-- Looking at the clock changes nothing. -/
theorem Agrees.retain (agrees : Agrees c store) :
    Agrees { c with active := Checker.retain store.nowMs c.active } store where
  active t late := by rw [Checker.retain_retain late, agrees.active t late]
  accepted := agrees.accepted

/-- The checker accepts the events so far and agrees with the store. -/
def Follows (sc : Scenario) (s : Sim) : Prop :=
  ∃ c, watch (Checker.observe sc.ttlMs) ⟨[], 0⟩ s.events = .ok c ∧ Agrees c s.store

def Rejected (sc : Scenario) (s : Sim) : Prop :=
  ∃ v, watch (Checker.observe sc.ttlMs) ⟨[], 0⟩ s.events = .error v

theorem Rejected.more (rejected : Rejected sc s) (more : s.events <+: t.events) : Rejected sc t := by
  obtain ⟨v, watched⟩ := rejected
  obtain ⟨rest, events⟩ := more
  exact ⟨v, events ▸ watch_rejects watched⟩

theorem Follows.start : Follows sc (start sc) := ⟨⟨[], 0⟩, rfl, fun _ _ => rfl, fun _ => rfl⟩

theorem Follows.wake (follows : Follows sc s) (w : Nat) : Follows sc (s.wake w) := by
  obtain ⟨c, watched, agrees⟩ := follows
  exact ⟨c, watched, fun t late => agrees.active t (Nat.le_trans (Nat.le_max_left _ _) late), agrees.accepted⟩

theorem watch_emit {kind : EventKind} {fence : Nat}
    (watched : watch (Checker.observe sc.ttlMs) ⟨[], 0⟩ s.events = .ok c) :
    watch (Checker.observe sc.ttlMs) ⟨[], 0⟩ (s.emit w kind fence).events =
      c.observe sc.ttlMs ⟨s.store.nowMs, w, kind, fence⟩ := by
  rw [emit, watch_concat, watched]
  rfl

/-- Refusals pass the checker. -/
theorem Follows.refuse (follows : Follows sc s) {kind : EventKind} (fence : Nat)
    (refusal : kind = .deny ∨ kind = .writeRejected) : Follows sc (s.emit w kind fence) := by
  obtain ⟨c, watched, agrees⟩ := follows
  refine ⟨_, (watch_emit watched).trans ?_, agrees.retain⟩
  obtain rfl | rfl := refusal <;> rfl

theorem Follows.grant (follows : Follows sc s) (rng : Rng) (free : s.store.live = false) :
    Follows sc ({ s with
      rng
      store := { s.store with
        fenceCounter := s.store.fenceCounter + 1
        entry := some ⟨w, s.store.nowMs + sc.ttlMs, s.store.fenceCounter + 1⟩ } }.emit w .grant
          (s.store.fenceCounter + 1)) := by
  obtain ⟨c, watched, agrees⟩ := follows
  refine ⟨{ c with active := [(w, s.store.nowMs + sc.ttlMs)] }, (watch_emit watched).trans ?_,
    fun t _ => rfl, agrees.accepted⟩
  simp only [Checker.observe, agrees.free free]
  rfl

theorem Follows.doubleGrant (follows : Follows sc s) (fence : Nat) (live : s.store.live = true) :
    Rejected sc (s.emit w .grant fence) := by
  obtain ⟨c, watched, agrees⟩ := follows
  obtain ⟨e, _, held⟩ := agrees.taken live
  simp only [Rejected, watch_emit watched, Checker.observe, held]
  exact ⟨_, rfl⟩

section
variable {fence : Nat} (mine : ∀ e, s.store.entry = some e → e.holder = w → e.fence = fence)
include mine

/-- The fence of a worker's hold adds nothing to its name. -/
theorem holdsValidly_iff : s.store.holdsValidly w fence = true ↔
    ∃ e, s.store.entry = some e ∧ e.holder = w ∧ s.store.nowMs < e.expiresMs := by
  simp only [SimStore.holdsValidly, Option.any_eq_true, decide_eq_true_eq]
  constructor
  · rintro ⟨e, found, own, _, running⟩
    exact ⟨e, found, own, running⟩
  · rintro ⟨e, found, own, running⟩
    exact ⟨e, found, own, mine e found own, running⟩

theorem any_active_eq (agrees : Agrees c s.store) :
    ((Checker.retain s.store.nowMs c.active).any fun hold => hold.1 == w) = s.store.holdsValidly w fence := by
  rw [Bool.eq_iff_iff, holdsValidly_iff mine, ← agrees.member, List.any_eq_true]
  simp only [beq_iff_eq]

/-- An accepted write of a worker that holds nothing. -/
theorem Follows.staleWrite (follows : Follows sc s) (stale : s.store.holdsValidly w fence = false) :
    Rejected sc (s.emit w .writeAccepted fence) := by
  obtain ⟨c, watched, agrees⟩ := follows
  simp only [Rejected, watch_emit watched, Checker.observe, any_active_eq mine agrees, stale]
  exact ⟨_, rfl⟩

/-- A write is judged as the store judges it, or it is one that only a broken resource accepts. -/
theorem Follows.write (follows : Follows sc s) :
    (Follows sc (s.write w fence) ∧
      ((s.store.fencedWrite w fence).1 = true → s.store.holdsValidly w fence = true)) ∨
    (Rejected sc (s.write w fence) ∧ s.store.brokenFencing = true) := by
  obtain ⟨c, watched, agrees⟩ := id follows
  have active := any_active_eq mine agrees
  cases broken : s.store.brokenFencing with
  | true =>
    have same : s.write w fence = s.emit w .writeAccepted fence := by
      simp [Sim.write, SimStore.fencedWrite, broken]
    rw [same]
    cases valid : s.store.holdsValidly w fence with
    | false => exact .inr ⟨follows.staleWrite mine valid, rfl⟩
    | true =>
      by_cases old : fence ≤ c.lastAcceptedFence
      · refine .inr ⟨?_, rfl⟩
        simp only [Rejected, watch_emit watched, Checker.observe, active, valid, if_true, if_pos old]
        exact ⟨_, rfl⟩
      · refine .inl ⟨⟨⟨_, fence⟩, ?_, agrees.retain.active, fun clean => ?_⟩, fun _ => rfl⟩
        · simp only [watch_emit watched, Checker.observe, active, valid, if_true, if_neg old]
        · exact absurd (broken.symm.trans clean) (by decide)
  | false =>
    cases valid : s.store.holdsValidly w fence with
    | false =>
      have same : s.write w fence = s.emit w .writeRejected fence := by
        simp [Sim.write, SimStore.fencedWrite, broken, valid]
      rw [same]
      refine .inl ⟨follows.refuse fence (.inr rfl), ?_⟩
      simp [SimStore.fencedWrite, broken, valid]
    | true =>
      refine .inl ⟨?_, fun _ => rfl⟩
      by_cases newer : s.store.lastAcceptedFence < fence
      · have same : s.write w fence = { s with
            store := { s.store with lastAcceptedFence := fence } }.emit w .writeAccepted fence := by
          simp [Sim.write, SimStore.fencedWrite, broken, valid, newer]
        rw [same]
        refine ⟨⟨_, fence⟩, (watch_emit watched).trans ?_, agrees.retain.active, fun _ => rfl⟩
        have fresh : ¬ fence ≤ c.lastAcceptedFence := by
          rw [agrees.accepted broken]
          omega
        simp only [Checker.observe, active, valid, if_true, if_neg fresh]
      · have same : s.write w fence = s.emit w .writeRejected fence := by
          simp [Sim.write, SimStore.fencedWrite, broken, valid, newer]
        rw [same]
        exact follows.refuse fence (.inr rfl)

/-- Releases are told what the checker expects. -/
theorem Follows.release (follows : Follows sc s) (rng : Rng) :
    Follows sc ({ s with rng, store := (s.store.release w fence).2 }.emit w
      (if (s.store.release w fence).1 then .releaseOk else .releaseLost) fence) := by
  obtain ⟨c, watched, agrees⟩ := follows
  cases valid : s.store.holdsValidly w fence with
  | true =>
    obtain ⟨e, found, own, running⟩ := (holdsValidly_iff mine).mp valid
    have live : s.store.live = true := by simp [SimStore.live, found, running]
    obtain ⟨_, same, held⟩ := agrees.taken live
    rw [found] at same
    cases same
    simp only [SimStore.release, valid, if_true]
    refine ⟨{ c with active := [] }, (watch_emit watched).trans ?_, fun t _ => rfl, agrees.accepted⟩
    simp [Checker.observe, held, own]
  | false =>
    have absent : (Checker.retain s.store.nowMs c.active).find? (fun hold => hold.1 == w) = none := by
      have none := any_active_eq mine agrees
      rw [valid, List.any_eq_false] at none
      exact List.find?_eq_none.mpr none
    simp only [SimStore.release, valid, Bool.false_eq_true, if_false]
    refine ⟨_, (watch_emit watched).trans ?_, agrees.retain⟩
    simp only [Checker.observe, absent]

end

/-- An event of the woken worker `w` that a correct store and resource would not allow. -/
def Fault (sc : Scenario) (w : Nat) (s : Sim) (e : Event) : Prop :=
  (e.kind = .grant ∧ s.store.live = true) ∨
  (e.kind = .writeAccepted ∧ s.store.holdsValidly e.worker e.fence = false) ∨
  ((e.kind = .writeAccepted ∨ e.kind = .writeRejected) ∧ sc.brokenFencing = true ∧
    ∃ fence budget, s.states w = .paused fence budget)

/-- The events of one round. -/
def emitted (s t : Sim) : List Event := t.events.drop s.events.length

theorem emitted_one {first : Event} (events : t.events = s.events ++ [first]) : emitted s t = [first] := by
  rw [emitted, events, List.drop_left]

theorem emitted_two (first second : Event) (events : t.events = (s.events ++ [first]) ++ [second]) :
    emitted s t = [first, second] := by
  rw [emitted, events, List.append_assoc, List.drop_left, List.singleton_append]

theorem not_fault_release {released : Bool} {e : Event}
    (kind : e.kind = if released then .releaseOk else .releaseLost) : ¬ Fault sc w s e := by
  cases released <;> simp [Fault, kind]

theorem not_fault_write {accepted : Bool} {e : Event}
    (kind : e.kind = if accepted then .writeAccepted else .writeRejected)
    (valid : accepted = true → s.store.holdsValidly e.worker e.fence = true)
    (awake : sc.brokenFencing = true → ∀ fence budget, s.states w ≠ .paused fence budget) :
    ¬ Fault sc w s e := by
  rintro (⟨granted, _⟩ | ⟨write, stale⟩ | ⟨_, broken, fence, budget, paused⟩)
  · cases accepted <;> simp [kind] at granted
  · cases accepted with
    | false => simp [kind] at write
    | true => simp [valid rfl] at stale
  · exact awake broken fence budget paused

/-- A worker ends its hold with a write and a release. -/
theorem judged_end (sound : Sound sc s) (follows : Follows sc s) {fence : Nat} (rng : Rng)
    (mine : ∀ e, s.store.entry = some e → e.holder = w → e.fence = fence)
    (lapsed : ∀ fence' budget, s.states w = .paused fence' budget → s.store.holdsValidly w fence = false)
    (later budget : Nat) :
    let t := ({ s.write w fence with
      rng
      store := ((s.write w fence).store.release w fence).2 }.emit w
        (if ((s.write w fence).store.release w fence).1 then .releaseOk else .releaseLost) fence).set w
          later (.idle budget)
    (Follows sc t ∧ ∀ e ∈ emitted s t, ¬ Fault sc w s e) ∨ (Rejected sc t ∧ sc.brokenFencing = true) := by
  obtain ⟨accepted, valid⟩ | ⟨rejected, broken⟩ := follows.write mine
  · have still : ∀ e, (s.write w fence).store.entry = some e → e.holder = w → e.fence = fence :=
      fun e found => mine e ((keeps_fencedWrite s.store w fence).entry e found)
    refine .inl ⟨accepted.release still rng, ?_⟩
    rw [emitted_two ⟨_, w, if (s.store.fencedWrite w fence).1 then .writeAccepted else .writeRejected, fence⟩ _
      rfl, List.forall_mem_cons, List.forall_mem_singleton]
    refine ⟨not_fault_write rfl valid fun broken _ _ paused => ?_, not_fault_release rfl⟩
    have ok : (s.store.fencedWrite w fence).1 = true := by
      simp [SimStore.fencedWrite, sound.fencing, broken]
    exact absurd ((valid ok).symm.trans (lapsed _ _ paused)) (by decide)
  · exact .inr ⟨rejected.more (List.prefix_append _ _), sound.fencing.symm.trans broken⟩

theorem Sound.mine (sound : Sound sc s) {fence : Nat}
    (state : ∃ releaseAt willPause budget, s.states w = .holding fence releaseAt willPause budget ∨
      s.states w = .paused fence budget) :
    ∀ e, s.store.entry = some e → e.holder = w → e.fence = fence := by
  rintro e found rfl
  have owned := sound.owned e found
  obtain ⟨releaseAt, willPause, budget, state | state⟩ := state
  · rw [state] at owned
    exact owned.1
  · rw [state] at owned
    exact owned.1

/-- A worker wakes from its pause after its lease has ended. -/
theorem Sound.lapsed (sound : Sound sc s) (awake : s.wakeAt w ≤ s.store.nowMs) {fence budget : Nat}
    (state : s.states w = .paused fence budget) (claimed : Nat) : s.store.holdsValidly w claimed = false := by
  by_contra valid
  rw [Bool.not_eq_false, SimStore.holdsValidly, Option.any_eq_true] at valid
  obtain ⟨e, found, valid⟩ := valid
  obtain ⟨rfl, _, running⟩ := of_decide_eq_true valid
  have owned := sound.owned e found
  rw [state] at owned
  have ended := owned.2
  omega

/-- The release of a worker that wakes from its pause reports the loss. -/
theorem Sound.lost (sound : Sound sc s) (awake : s.wakeAt w ≤ s.store.nowMs) {fence budget : Nat}
    (state : s.states w = .paused fence budget) : ((s.write w fence).store.release w fence).1 = false := by
  have clock : (s.write w fence).store.nowMs = s.store.nowMs := (keeps_fencedWrite s.store w fence).nowMs
  have stale := (sound.write w fence).lapsed (clock ▸ awake) state fence
  simp [SimStore.release, stale]

/-- One round: the checker keeps up with the store, or it rejects an event that only a
broken store or resource lets happen. -/
theorem Acts.judged (acts : Acts sc w s t) (sound : Sound sc s) (follows : Follows sc s)
    (awake : s.wakeAt w ≤ s.store.nowMs) :
    (Follows sc t ∧ ∀ e ∈ emitted s t, ¬ Fault sc w s e) ∨
      (Rejected sc t ∧ (sc.brokenCas = true ∨ sc.brokenFencing = true)) := by
  cases acts with
  | finish _ | skip _ | freeze _ | await _ _ => exact .inl ⟨follows, by simp [emitted, Sim.set]⟩
  | deny _ _ =>
    refine .inl ⟨follows.refuse 0 (.inl rfl), ?_⟩
    rw [emitted_one rfl, List.forall_mem_singleton]
    simp [Fault]
  | @grant _ _ _ rng _ _ cas _ =>
    cases live : s.store.live with
    | false =>
      refine .inl ⟨follows.grant rng live, ?_⟩
      rw [emitted_one rfl, List.forall_mem_singleton]
      simp [Fault, live]
    | true => exact .inr ⟨follows.doubleGrant _ live, .inl (sound.cas.symm.trans (cas live))⟩
  | @leave fence _ _ _ _ rng state =>
    have mine := sound.mine ⟨_, _, _, .inl state⟩
    have lapsed : ∀ fence' budget, s.states w = .paused fence' budget → s.store.holdsValidly w fence = false := by
      simp [state]
    exact (judged_end sound follows rng mine lapsed _ _).imp_right fun rejected => ⟨rejected.1, .inr rejected.2⟩
  | @resume fence budget later state =>
    have mine := sound.mine ⟨0, false, _, .inr state⟩
    have lost := sound.lost awake state
    have ended := judged_end sound follows s.rng mine fun _ _ state => sound.lapsed awake state fence
    rw [lost] at ended
    exact (ended later budget).imp_right fun rejected => ⟨rejected.1, .inr rejected.2⟩

theorem follows_or_rejected (reach : (simulation sc).Reachable s) :
    Follows sc s ∨ (Rejected sc s ∧ (sc.brokenCas = true ∨ sc.brokenFencing = true)) := by
  induction reach with
  | initial first =>
    cases first
    exact .inl .start
  | @next s _ t reach _ stepped ih =>
    obtain ⟨w, _, _, acts⟩ := step_acts stepped
    obtain follows | ⟨rejected, broken⟩ := ih
    · exact (acts.judged ((Sound.reachable reach).wake w) (follows.wake w) (Nat.le_max_right _ _)).imp_left
        And.left
    · exact .inr ⟨rejected.more acts.events, broken⟩

/-- The events come out of the loop in time order, so sorting leaves them as they are. -/
theorem simulate_eq (crowd : 2 ≤ sc.workers) : simulate sc = some ((start sc).run sc).events := by
  have timed := (Sound.reachable (run_reachable (.initial rfl) : (simulation sc).Reachable _)).timed
  rw [simulate, if_neg (by omega), List.mergeSort_of_pairwise]
  exact timed.imp fun order => decide_eq_true order

theorem Rejected.check (rejected : Rejected sc s) : ∃ v, check s.events sc.ttlMs = .error v := by
  obtain ⟨v, watched⟩ := rejected
  exact ⟨v, by rw [Testing.check, watched]; rfl⟩

end Sim

open Sim

/-- Runs without injected faults pass the checker. -/
theorem clean_runs_pass (sc : Scenario) (crowd : 2 ≤ sc.workers) (cas : sc.brokenCas = false)
    (fencing : sc.brokenFencing = false) :
    ∃ history, simulate sc = some history ∧ check history sc.ttlMs = .ok () := by
  have reach : (simulation sc).Reachable ((Sim.start sc).run sc) := run_reachable (.initial rfl)
  refine ⟨_, simulate_eq crowd, ?_⟩
  obtain ⟨c, watched, _⟩ | ⟨_, broken⟩ := follows_or_rejected reach
  · exact check_eq_ok.mpr ⟨c, watched⟩
  · simp [cas, fencing] at broken

theorem clean_scenario_passes :
    ∃ history, simulate (.clean 41) = some history ∧ check history 100 = .ok () :=
  clean_runs_pass (.clean 41) (by decide) rfl rfl

/-- A fault anywhere in a run makes the checker reject it. -/
theorem faults_are_caught {sc : Scenario} {s : Sim} {w : Nat} {e : Event} (crowd : 2 ≤ sc.workers)
    (reach : (simulation sc).Reachable s) (woken : s.next sc.workers = some w)
    (member : e ∈ emitted s ((s.wake w).act sc w)) (fault : Fault sc w (s.wake w) e) :
    ∃ history v, simulate sc = some history ∧ check history sc.ttlMs = .error v := by
  have stepped : s.step sc = some ((s.wake w).act sc w) := by rw [step, woken]; rfl
  have acts : Acts sc w (s.wake w) _ := acts (next_spec woken).2
  have caught : Rejected sc ((s.wake w).act sc w) := by
    obtain follows | ⟨rejected, _⟩ := follows_or_rejected reach
    · obtain ⟨_, faultless⟩ | ⟨rejected, _⟩ :=
        acts.judged ((Sound.reachable reach).wake w) (follows.wake w) (Nat.le_max_right _ _)
      · exact absurd fault (faultless e member)
      · exact rejected
    · exact rejected.more acts.events
  obtain ⟨v, rejected⟩ := (caught.more run_events).check
  rw [← run_step stepped, run_of_reachable reach] at rejected
  exact ⟨_, v, simulate_eq crowd, rejected⟩

/-- Two workers, every hold of which becomes a pause, and a resource that accepts any fence. -/
def stalled : Scenario := ⟨2, 2, 1, 100, 100, false, true⟩

theorem paused_write_is_caught :
    ∃ history v, simulate stalled = some history ∧ check history 100 = .error v := by
  obtain ⟨s, reach, woken, e, member, accepted, stale⟩ := (simulation stalled).exists_reachableWhen
    (fun _ _ => True)
    (fun s => s.next 2 = some 0 ∧ ∃ e ∈ emitted s ((s.wake 0).act stalled 0), e.kind = .writeAccepted ∧
      (s.wake 0).store.holdsValidly e.worker e.fence = false)
    (s := Sim.start stalled) rfl [(), (), (), ()] (by decide +kernel)
  exact faults_are_caught (by decide) reach woken member (.inr (.inl ⟨accepted, stale⟩))

end Palisade.Testing
