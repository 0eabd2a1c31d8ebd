import Palisade.Monitor

/-! The history checker of the correctness harness. Times are whole milliseconds of a
64-bit clock that does not run out. What the pass notes of ended holds is never read and
is left out. -/
namespace Palisade.Testing
open Monitor

inductive EventKind where
  | grant
  | deny
  | releaseOk
  | releaseLost
  | writeAccepted
  | writeRejected
  deriving DecidableEq

structure Event where
  tMs : Nat
  worker : Nat
  kind : EventKind
  /-- 0 where not applicable. -/
  fence : Nat
  deriving DecidableEq

structure Violation where
  atMs : Nat
  description : String
  deriving DecidableEq

/-- The state of the pass: the active holds as worker and expiry. -/
structure Checker where
  active : List (Nat × Nat)
  lastAcceptedFence : Nat
  deriving DecidableEq

namespace Checker

/-- The holds whose lease has not passed at `t`. -/
def retain (t : Nat) (active : List (Nat × Nat)) : List (Nat × Nat) :=
  active.filter fun hold => decide (t < hold.2)

def observe (ttlMs : Nat) (c : Checker) (e : Event) : Except Violation Checker :=
  let active := retain e.tMs c.active
  match e.kind with
  | .grant =>
    match active with
    | (other, _) :: _ =>
      .error ⟨e.tMs, s!"worker {e.worker} granted while worker {other} still validly holds"⟩
    | [] =>
      if e.fence = 0 then .error ⟨e.tMs, "grant without fencing token"⟩
      else .ok { c with active := [(e.worker, e.tMs + ttlMs)] }
  | .releaseOk =>
    match active.findIdx? fun hold => hold.1 == e.worker with
    | some i => .ok { c with active := active.eraseIdx i }
    | none => .error ⟨e.tMs, s!"worker {e.worker} released a lock it does not validly hold"⟩
  | .releaseLost =>
    match active.find? fun hold => hold.1 == e.worker with
    | some (_, expiresMs) =>
      if e.tMs < expiresMs then
        .error ⟨e.tMs, s!"worker {e.worker} told lease lost while still inside validity window"⟩
      else .ok { c with active }
    | none => .ok { c with active }
  | .writeAccepted =>
    if active.any fun hold => hold.1 == e.worker then
      if e.fence ≤ c.lastAcceptedFence then
        .error ⟨e.tMs,
          s!"fence {e.fence} accepted but not newer than last accepted {c.lastAcceptedFence}"⟩
      else .ok { active, lastAcceptedFence := e.fence }
    else .error ⟨e.tMs, s!"stale write ACCEPTED from worker {e.worker} who holds nothing"⟩
  | .writeRejected | .deny => .ok { c with active }

end Checker

def check (history : List Event) (ttlMs : Nat) : Except Violation Unit :=
  (watch (Checker.observe ttlMs) ⟨[], 0⟩ history).map fun _ => ()

/-! What the checker is for. -/

/-- After `past`, the window of `grant` is open at `t`: the lease runs and its worker has
not released since. -/
def Open (ttlMs : Nat) (past : List Event) (grant : Event) (t : Nat) : Prop :=
  ∃ before since, past = before ++ grant :: since ∧ grant.kind = .grant ∧ t < grant.tMs + ttlMs ∧
    ∀ e ∈ since, ¬ (e.kind = .releaseOk ∧ e.worker = grant.worker)

/-- An open window of the worker. -/
def Holds (ttlMs : Nat) (past : List Event) (worker t : Nat) : Prop :=
  ∃ grant, grant.worker = worker ∧ Open ttlMs past grant t

/-- The fences of the accepted writes, in order. -/
def accepted (history : List Event) : List Nat :=
  (history.filter fun e => decide (e.kind = .writeAccepted)).map Event.fence

/-- The histories of a leased mutex and the resource it protects. -/
structure LeasedMutex (history : List Event) (ttlMs : Nat) : Prop where
  exclusive : Always (fun past e => e.kind = .grant → ∀ grant, ¬ Open ttlMs past grant e.tMs) history
  fenced : ∀ e ∈ history, e.kind = .grant → e.fence ≠ 0
  held : Always (fun past e => e.kind = .releaseOk ∨ e.kind = .writeAccepted →
    Holds ttlMs past e.worker e.tMs) history
  lost : Always (fun past e => e.kind = .releaseLost → ¬ Holds ttlMs past e.worker e.tMs) history
  positive : ∀ fence ∈ accepted history, 0 < fence
  increasing : (accepted history).Pairwise (· < ·)

def Timed (history : List Event) : Prop := history.Pairwise (·.tMs ≤ ·.tMs)

variable {ttlMs t worker : Nat} {past history : List Event} {e grant : Event}

/-- What a leased mutex demands of an event after its past. -/
def Admits (ttlMs : Nat) (past : List Event) (e : Event) : Prop :=
  match e.kind with
  | .grant => (∀ grant, ¬ Open ttlMs past grant e.tMs) ∧ e.fence ≠ 0
  | .releaseOk => Holds ttlMs past e.worker e.tMs
  | .releaseLost => ¬ Holds ttlMs past e.worker e.tMs
  | .writeAccepted => Holds ttlMs past e.worker e.tMs ∧ 0 < e.fence ∧ ∀ fence ∈ accepted past, fence < e.fence
  | .writeRejected | .deny => True

theorem accepted_concat : accepted (past ++ [e]) =
    accepted past ++ if e.kind = .writeAccepted then [e.fence] else [] := by
  unfold accepted
  by_cases write : e.kind = .writeAccepted
  · simp [write]
  · simp [write]

theorem LeasedMutex.nil : LeasedMutex [] ttlMs :=
  ⟨always_nil, by simp, always_nil, always_nil, by simp [accepted], by simp [accepted]⟩

theorem leasedMutex_concat :
    LeasedMutex (past ++ [e]) ttlMs ↔ LeasedMutex past ttlMs ∧ Admits ttlMs past e := by
  constructor
  · rintro ⟨exclusive, fenced, held, lost, positive, increasing⟩
    rw [always_concat] at exclusive held lost
    rw [List.forall_mem_append, List.forall_mem_singleton] at fenced
    rw [accepted_concat] at positive increasing
    rw [List.forall_mem_append] at positive
    rw [List.pairwise_append] at increasing
    refine ⟨⟨exclusive.1, fenced.1, held.1, lost.1, positive.1, increasing.1⟩, ?_⟩
    unfold Admits
    split
    · exact ⟨exclusive.2 ‹_›, fenced.2 ‹_›⟩
    · exact held.2 (.inl ‹_›)
    · exact lost.2 ‹_›
    · next write =>
      simp only [write, if_true, List.forall_mem_singleton] at positive increasing
      exact ⟨held.2 (.inr write), positive.2, increasing.2.2⟩
    · trivial
    · trivial
  · rintro ⟨⟨exclusive, fenced, held, lost, positive, increasing⟩, admits⟩
    constructor
    · refine always_concat.mpr ⟨exclusive, fun kind => ?_⟩
      simp only [Admits, kind] at admits
      exact admits.1
    · refine List.forall_mem_append.mpr ⟨fenced, List.forall_mem_singleton.mpr fun kind => ?_⟩
      simp only [Admits, kind] at admits
      exact admits.2
    · refine always_concat.mpr ⟨held, ?_⟩
      rintro (kind | kind)
      · simpa only [Admits, kind] using admits
      · simp only [Admits, kind] at admits
        exact admits.1
    · refine always_concat.mpr ⟨lost, fun kind => ?_⟩
      simpa only [Admits, kind] using admits
    · rw [accepted_concat, List.forall_mem_append]
      refine ⟨positive, ?_⟩
      split
      · next kind =>
        simp only [Admits, kind] at admits
        exact List.forall_mem_singleton.mpr admits.2.1
      · simp
    · rw [accepted_concat, List.pairwise_append]
      refine ⟨increasing, ?_, ?_⟩
      · split
        · exact List.pairwise_singleton _ _
        · exact List.Pairwise.nil
      · split
        · next kind =>
          simp only [Admits, kind] at admits
          simpa only [List.forall_mem_singleton] using admits.2.2
        · simp

theorem leasedMutex_iff : LeasedMutex history ttlMs ↔ Always (Admits ttlMs) history := by
  induction history using List.reverseRecOn with
  | nil => exact ⟨fun _ => always_nil, fun _ => .nil⟩
  | append_singleton past e ih => rw [leasedMutex_concat, always_concat, ih]

@[simp] theorem not_open_nil : ¬ Open ttlMs [] grant t := by
  rintro ⟨before, since, split, _⟩
  simp at split

theorem open_concat : Open ttlMs (past ++ [e]) grant t ↔
    (grant = e ∧ e.kind = .grant ∧ t < e.tMs + ttlMs) ∨
      Open ttlMs past grant t ∧ ¬ (e.kind = .releaseOk ∧ e.worker = grant.worker) := by
  constructor
  · rintro ⟨before, since, split, kind, running, unreleased⟩
    obtain ⟨rfl, rfl, rfl⟩ | ⟨front, rfl, rfl⟩ := concat_eq_append_cons.mp split
    · exact .inl ⟨rfl, kind, running⟩
    · rw [List.forall_mem_append, List.forall_mem_singleton] at unreleased
      exact .inr ⟨⟨before, front, rfl, kind, running, unreleased.1⟩, unreleased.2⟩
  · rintro (⟨rfl, kind, running⟩ | ⟨⟨before, since, rfl, kind, running, unreleased⟩, last⟩)
    · exact ⟨past, [], rfl, kind, running, by simp⟩
    · refine ⟨before, since ++ [e], ?_, kind, running, ?_⟩
      · rw [List.append_assoc, List.cons_append]
      · exact List.forall_mem_append.mpr ⟨unreleased, List.forall_mem_singleton.mpr last⟩

theorem holds_concat : Holds ttlMs (past ++ [e]) worker t ↔
    (e.kind = .grant ∧ e.worker = worker ∧ t < e.tMs + ttlMs) ∨
      Holds ttlMs past worker t ∧ ¬ (e.kind = .releaseOk ∧ e.worker = worker) := by
  constructor
  · rintro ⟨grant, rfl, isOpen⟩
    obtain ⟨rfl, kind, running⟩ | ⟨isOpen, last⟩ := open_concat.mp isOpen
    · exact .inl ⟨kind, rfl, running⟩
    · exact .inr ⟨⟨grant, rfl, isOpen⟩, last⟩
  · rintro (⟨kind, rfl, running⟩ | ⟨⟨grant, rfl, isOpen⟩, last⟩)
    · exact ⟨e, rfl, open_concat.mpr (.inl ⟨rfl, kind, running⟩)⟩
    · exact ⟨grant, rfl, open_concat.mpr (.inr ⟨isOpen, last⟩)⟩

theorem Open.earlier {instant : Nat} (isOpen : Open ttlMs past grant t) (order : instant ≤ t) :
    Open ttlMs past grant instant := by
  obtain ⟨before, since, split, kind, running, unreleased⟩ := isOpen
  exact ⟨before, since, split, kind, by omega, unreleased⟩

theorem Holds.earlier {instant : Nat} (holds : Holds ttlMs past worker t) (order : instant ≤ t) :
    Holds ttlMs past worker instant := by
  obtain ⟨grant, own, isOpen⟩ := holds
  exact ⟨grant, own, isOpen.earlier order⟩

/-! The pass keeps track of the open windows. -/

namespace Checker
variable {c : Checker}

theorem retain_retain {active : List (Nat × Nat)} {instant : Nat} (order : instant ≤ t) :
    retain t (retain instant active) = retain t active := by
  unfold retain
  rw [List.filter_filter]
  refine List.filter_congr fun hold _ => ?_
  by_cases running : t < hold.2
  · have before : instant < hold.2 := by omega
    simp [running, before]
  · simp [running]

/-- The state after `past`, as it matters from the last event of `past` on. -/
structure Tracks (ttlMs : Nat) (past : List Event) (c : Checker) : Prop where
  single : c.active.length ≤ 1
  holds : ∀ worker t, (∀ e ∈ past, e.tMs ≤ t) →
    ((∃ hold ∈ retain t c.active, hold.1 = worker) ↔ Holds ttlMs past worker t)
  accepted : ∀ fence, c.lastAcceptedFence < fence ↔
    0 < fence ∧ ∀ older ∈ accepted past, older < fence

theorem Tracks.start : Tracks ttlMs [] ⟨[], 0⟩ where
  single := Nat.zero_le _
  holds worker t _ := by simp [retain, Holds]
  accepted fence := by simp [Testing.accepted]

/-- The holds that are left when an event comes: none, or one. -/
theorem Tracks.left (tracks : Tracks ttlMs past c) (t : Nat) :
    retain t c.active = [] ∨ ∃ hold, retain t c.active = [hold] := by
  have few : (retain t c.active).length ≤ 1 := Nat.le_trans (List.length_filter_le _ _) tracks.single
  cases found : retain t c.active with
  | nil => exact .inl rfl
  | cons hold rest =>
    simp only [found, List.length_cons] at few
    have none : rest = [] := List.eq_nil_of_length_eq_zero (by omega)
    exact .inr ⟨hold, by rw [none]⟩

/-- Events other than grants and releases change no window. -/
theorem Tracks.pass (tracks : Tracks ttlMs past c) (kind : e.kind ≠ .grant ∧ e.kind ≠ .releaseOk)
    (fence : Nat) (newest : ∀ newer, fence < newer ↔
      0 < newer ∧ ∀ older ∈ Testing.accepted (past ++ [e]), older < newer) :
    Tracks ttlMs (past ++ [e]) ⟨retain e.tMs c.active, fence⟩ where
  single := Nat.le_trans (List.length_filter_le _ _) tracks.single
  holds worker t late := by
    rw [List.forall_mem_append, List.forall_mem_singleton] at late
    rw [retain_retain late.2, tracks.holds worker t late.1, holds_concat]
    simp [kind.1, kind.2]
  accepted := newest

theorem Tracks.enter (tracks : Tracks ttlMs past c) (timed : ∀ before ∈ past, before.tMs ≤ e.tMs)
    (kind : e.kind = .grant) (free : retain e.tMs c.active = []) :
    Tracks ttlMs (past ++ [e]) { c with active := [(e.worker, e.tMs + ttlMs)] } where
  single := Nat.le_refl 1
  holds worker t late := by
    rw [List.forall_mem_append, List.forall_mem_singleton] at late
    have before : ¬ Holds ttlMs past worker t := by
      intro holds
      obtain ⟨hold, member, _⟩ := (tracks.holds worker e.tMs timed).mpr (holds.earlier late.2)
      simp [free] at member
    rw [holds_concat]
    simp [before, kind, retain, and_comm]
  accepted fence := by
    rw [tracks.accepted, accepted_concat]
    simp [kind]

theorem Tracks.leave (tracks : Tracks ttlMs past c) (timed : ∀ before ∈ past, before.tMs ≤ e.tMs)
    (kind : e.kind = .releaseOk) {expiresMs : Nat} (own : retain e.tMs c.active = [(e.worker, expiresMs)]) :
    Tracks ttlMs (past ++ [e]) { c with active := [] } where
  single := Nat.zero_le _
  holds worker t late := by
    rw [List.forall_mem_append, List.forall_mem_singleton] at late
    have before (holds : Holds ttlMs past worker t) : e.worker = worker := by
      obtain ⟨hold, member, same⟩ := (tracks.holds worker e.tMs timed).mpr (holds.earlier late.2)
      obtain rfl := List.mem_singleton.mp (own ▸ member)
      exact same
    rw [holds_concat]
    simp only [retain, List.filter_nil, List.not_mem_nil, false_and, exists_false, kind, reduceCtorEq,
      true_and, false_or, false_iff, not_and, not_not]
    exact before
  accepted fence := by
    rw [tracks.accepted, accepted_concat]
    simp [kind]

/-- Events other than accepted writes leave the newest fence. -/
theorem Tracks.accepted_pass (tracks : Tracks ttlMs past c) (other : e.kind ≠ .writeAccepted) (fence : Nat) :
    c.lastAcceptedFence < fence ↔ 0 < fence ∧ ∀ older ∈ Testing.accepted (past ++ [e]), older < fence := by
  rw [tracks.accepted, accepted_concat, if_neg other, List.append_nil]

section
variable (tracks : Tracks ttlMs past c) (timed : ∀ before ∈ past, before.tMs ≤ e.tMs)
include tracks timed

theorem Tracks.judged_grant (kind : e.kind = .grant) :
    Judged (Tracks ttlMs) (Admits ttlMs) past e (observe ttlMs c e) := by
  have holds (worker : Nat) := tracks.holds worker e.tMs timed
  simp only [observe, kind]
  obtain free | ⟨⟨other, expiresMs⟩, taken⟩ := tracks.left e.tMs
  · simp only [free]
    split
    · exact .rejected (by simp [Admits, *])
    · refine .admitted ?_ (tracks.enter timed kind free)
      simp only [Admits, kind]
      refine ⟨fun grant isOpen => ?_, ‹_›⟩
      obtain ⟨hold, member, _⟩ := (holds grant.worker).mpr ⟨grant, rfl, isOpen⟩
      simp [free] at member
  · simp only [taken]
    obtain ⟨grant, _, isOpen⟩ := (holds other).mp ⟨_, taken ▸ List.mem_singleton_self _, rfl⟩
    exact .rejected (by simp only [Admits, kind]; exact fun admits => admits.1 grant isOpen)

theorem Tracks.judged_releaseOk (kind : e.kind = .releaseOk) :
    Judged (Tracks ttlMs) (Admits ttlMs) past e (observe ttlMs c e) := by
  have holds (worker : Nat) := tracks.holds worker e.tMs timed
  simp only [observe, kind]
  obtain free | ⟨⟨other, expiresMs⟩, taken⟩ := tracks.left e.tMs
  · simp only [free, List.findIdx?_nil]
    exact .rejected (by simp [Admits, kind, ← holds, free])
  · by_cases own : other = e.worker
    · subst own
      simp only [taken, List.findIdx?_cons, beq_self_eq_true, if_true, List.eraseIdx_cons_zero]
      exact .admitted (by simp [Admits, kind, ← holds, taken]) (tracks.leave timed kind taken)
    · simp only [taken, List.findIdx?_cons, beq_eq_false_iff_ne.mpr own, Bool.false_eq_true, if_false,
        List.findIdx?_nil, Option.map_none]
      exact .rejected (by simp [Admits, kind, ← holds, taken, own])

theorem Tracks.judged_releaseLost (kind : e.kind = .releaseLost) :
    Judged (Tracks ttlMs) (Admits ttlMs) past e (observe ttlMs c e) := by
  have holds (worker : Nat) := tracks.holds worker e.tMs timed
  have stays := tracks.pass (e := e) (by simp [kind]) _ (tracks.accepted_pass (by simp [kind]))
  simp only [observe, kind]
  obtain free | ⟨⟨other, expiresMs⟩, taken⟩ := tracks.left e.tMs
  · simp only [free, List.find?_nil] at stays ⊢
    exact .admitted (by simp [Admits, kind, ← holds, free]) stays
  · by_cases own : other = e.worker
    · subst own
      have running : e.tMs < expiresMs := by
        have member : (e.worker, expiresMs) ∈ retain e.tMs c.active := taken ▸ List.mem_singleton_self _
        exact of_decide_eq_true (List.mem_filter.mp member).2
      simp only [taken, List.find?_cons, beq_self_eq_true, running, if_true]
      exact .rejected (by simp [Admits, kind, ← holds, taken])
    · simp only [taken, List.find?_cons, beq_eq_false_iff_ne.mpr own, List.find?_nil] at stays ⊢
      exact .admitted (by simp [Admits, kind, ← holds, taken, own]) stays

theorem Tracks.judged_writeAccepted (kind : e.kind = .writeAccepted) :
    Judged (Tracks ttlMs) (Admits ttlMs) past e (observe ttlMs c e) := by
  have member : (retain e.tMs c.active).any (fun hold => hold.1 == e.worker) = true ↔
      Holds ttlMs past e.worker e.tMs := by
    rw [← tracks.holds e.worker e.tMs timed, List.any_eq_true]
    simp only [beq_iff_eq]
  simp only [observe, kind]
  split
  · next inside =>
    have held := member.mp inside
    split
    · next old =>
      refine .rejected ?_
      simp only [Admits, kind, held, true_and, ← tracks.accepted]
      omega
    · next newer =>
      rw [Nat.not_le] at newer
      refine .admitted ?_ (tracks.pass (by simp [kind]) _ fun fence => ?_)
      · simpa only [Admits, kind, held, true_and, ← tracks.accepted] using newer
      · rw [accepted_concat, if_pos kind, List.forall_mem_append, List.forall_mem_singleton, ← and_assoc,
          ← tracks.accepted]
        omega
  · next outside =>
    refine .rejected ?_
    simp only [Admits, kind]
    exact fun admits => outside (member.mpr admits.1)

/-- One round of the loop judges the event as a leased mutex does. -/
theorem Tracks.judged : Judged (Tracks ttlMs) (Admits ttlMs) past e (observe ttlMs c e) := by
  cases kind : e.kind with
  | grant => exact tracks.judged_grant timed kind
  | releaseOk => exact tracks.judged_releaseOk timed kind
  | releaseLost => exact tracks.judged_releaseLost timed kind
  | writeAccepted => exact tracks.judged_writeAccepted timed kind
  | deny | writeRejected =>
    simp only [observe, kind]
    exact .admitted (by simp [Admits, kind])
      (tracks.pass (by simp [kind]) _ (tracks.accepted_pass (by simp [kind])))

end

end Checker

theorem Timed.concat (timed : Timed (past ++ [e])) : Timed past ∧ ∀ before ∈ past, before.tMs ≤ e.tMs := by
  obtain ⟨timed, _, order⟩ := List.pairwise_append.mp timed
  exact ⟨timed, fun before member => order before member e (List.mem_singleton_self e)⟩

/-- The pass over a history in time order, and what it knows at the end. -/
theorem watch_tracks (ttlMs : Nat) (timed : Timed history) :
    (∃ c, watch (Checker.observe ttlMs) ⟨[], 0⟩ history = .ok c ∧ Checker.Tracks ttlMs history c ∧
      Always (Admits ttlMs) history) ∨
    (∃ v, watch (Checker.observe ttlMs) ⟨[], 0⟩ history = .error v) ∧ ¬ Always (Admits ttlMs) history :=
  watch_judges (fun _ _ valid => valid.concat.1) Checker.Tracks.start
    (fun _ _ _ valid tracks => tracks.judged valid.concat.2) timed

theorem check_eq_ok : check history ttlMs = .ok () ↔
    ∃ c, watch (Checker.observe ttlMs) ⟨[], 0⟩ history = .ok c := by
  unfold check
  cases watch (Checker.observe ttlMs) ⟨[], 0⟩ history with
  | error v => simp [Except.map]
  | ok c => simp [Except.map]

theorem watch_ok_iff (timed : Timed history) :
    (∃ c, watch (Checker.observe ttlMs) ⟨[], 0⟩ history = .ok c) ↔ LeasedMutex history ttlMs := by
  rw [leasedMutex_iff]
  obtain ⟨c, watched, _, always⟩ | ⟨⟨v, watched⟩, never⟩ := watch_tracks ttlMs timed
  · simp [watched, always]
  · simp [watched, never]

/-- The checker accepts exactly the histories of a leased mutex. -/
theorem check_ok_iff (timed : Timed history) : check history ttlMs = .ok () ↔ LeasedMutex history ttlMs :=
  check_eq_ok.trans (watch_ok_iff timed)

/-- A hold with its write, and one that lapses before the next grant. -/
theorem check_ok_two_holds : LeasedMutex [⟨0, 1, .grant, 1⟩, ⟨40, 1, .writeAccepted, 1⟩,
    ⟨50, 1, .releaseOk, 1⟩, ⟨60, 2, .grant, 2⟩, ⟨160, 1, .grant, 3⟩, ⟨165, 2, .releaseLost, 2⟩] 100 :=
  (check_ok_iff (by simp [Timed])).mp (by decide)

/-! Fences of accepted writes. The pass knows holders by worker alone. -/

/-- Every accepted write carries the fence of the grant whose window it lies in. -/
def FencesMatch (history : List Event) (ttlMs : Nat) : Prop :=
  Always (fun past e => e.kind = .writeAccepted →
    ∃ grant, grant.worker = e.worker ∧ Open ttlMs past grant e.tMs ∧ grant.fence = e.fence) history

/-- The last grant of the worker, open or not. -/
def latestGrant (past : List Event) (worker : Nat) : Option Event :=
  past.reverse.find? fun e => decide (e.kind = .grant ∧ e.worker = worker)

/-- Every accepted write carries the fence that its worker was granted last. -/
def CarriesLatest (history : List Event) : Prop :=
  Always (fun past e => e.kind = .writeAccepted →
    ∃ grant ∈ latestGrant past e.worker, grant.fence = e.fence) history

theorem latestGrant_concat : latestGrant (past ++ [e]) worker =
    if e.kind = .grant ∧ e.worker = worker then some e else latestGrant past worker := by
  rw [latestGrant, List.reverse_append, List.reverse_singleton, List.singleton_append, List.find?_cons]
  split
  · next own => rw [if_pos (of_decide_eq_true own)]
  · next other => rw [if_neg (of_decide_eq_false other), latestGrant]

/-- A grant that a leased mutex admits finds no window open. -/
theorem Admits.free (admits : Admits ttlMs past e) (kind : e.kind = .grant) (late : e.tMs ≤ t) :
    ¬ Open ttlMs past grant t := by
  simp only [Admits, kind] at admits
  exact fun isOpen => admits.1 grant (isOpen.earlier late)

/-- In a leased mutex an open window is that of its worker's last grant. -/
theorem LeasedMutex.latest_of_open (legal : LeasedMutex past ttlMs) (late : ∀ e ∈ past, e.tMs ≤ t)
    (isOpen : Open ttlMs past grant t) : latestGrant past grant.worker = some grant := by
  induction past using List.reverseRecOn with
  | nil => exact absurd isOpen not_open_nil
  | append_singleton past e ih =>
    obtain ⟨legal, admits⟩ := leasedMutex_concat.mp legal
    rw [List.forall_mem_append, List.forall_mem_singleton] at late
    rw [latestGrant_concat]
    obtain ⟨rfl, kind, _⟩ | ⟨before, _⟩ := open_concat.mp isOpen
    · rw [if_pos ⟨kind, rfl⟩]
    · have other : ¬ (e.kind = .grant ∧ e.worker = grant.worker) :=
        fun own => admits.free own.1 late.2 before
      rw [if_neg other]
      exact ih legal late.1 before

/-- Of what the checker accepts, exactly those histories have matching fences in which every
accepted write carries the fence that its worker was granted last. -/
theorem accepted_fences_match_iff (timed : Timed history) (accepts : check history ttlMs = .ok ()) :
    FencesMatch history ttlMs ↔ CarriesLatest history := by
  have legal := (watch_ok_iff timed).mp (check_eq_ok.mp accepts)
  clear accepts
  induction history using List.reverseRecOn with
  | nil => exact ⟨fun _ => always_nil, fun _ => always_nil⟩
  | append_singleton past e ih =>
    obtain ⟨timed, late⟩ := timed.concat
    obtain ⟨legal, admits⟩ := leasedMutex_concat.mp legal
    unfold FencesMatch CarriesLatest
    rw [always_concat, always_concat]
    refine and_congr (ih timed legal) (forall_congr' fun kind => ?_)
    simp only [Admits, kind] at admits
    obtain ⟨⟨holding, own, isOpen⟩, _⟩ := admits
    have latest : latestGrant past e.worker = some holding := own ▸ legal.latest_of_open late isOpen
    constructor
    · rintro ⟨grant, same, inside, fence⟩
      exact ⟨grant, same ▸ legal.latest_of_open late inside, fence⟩
    · rintro ⟨grant, last, fence⟩
      cases Option.some.inj (latest.symm.trans last)
      exact ⟨holding, own, isOpen, fence⟩

/-- Two grants of one worker, the first of which has lapsed. -/
def regranted : List Event := ([] ++ [⟨0, 1, .grant, 1⟩]) ++ [⟨100, 1, .grant, 2⟩]

theorem open_regranted : Open 100 regranted grant 110 ↔ grant = ⟨100, 1, .grant, 2⟩ := by
  rw [regranted, open_concat, open_concat]
  simp

theorem current_write_matches : FencesMatch (regranted ++ [⟨110, 1, .writeAccepted, 2⟩]) 100 := by
  refine (accepted_fences_match_iff (by simp [Timed, regranted]) (by decide)).mpr (always_concat.mpr ⟨?_, ?_⟩)
  · rw [regranted, always_concat, always_concat]
    simp
  · exact fun _ => ⟨⟨100, 1, .grant, 2⟩, rfl, rfl⟩

/-- No write was accepted since the first grant, so its fence still counts as new. -/
theorem stale_write_accepted :
    ¬ ∀ history ttlMs, Timed history → check history ttlMs = .ok () → FencesMatch history ttlMs := by
  intro always
  have matched := always (regranted ++ [⟨110, 1, .writeAccepted, 1⟩]) 100 (by simp [Timed, regranted])
    (by decide)
  obtain ⟨grant, _, isOpen, same⟩ := matched regranted ⟨110, 1, .writeAccepted, 1⟩ [] rfl rfl
  rw [open_regranted.mp isOpen] at same
  contradiction

end Palisade.Testing
