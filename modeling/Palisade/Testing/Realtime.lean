import Palisade.Testing.Checker

/-! Recorded traffic of real clients, turned into events for the checker. Times are
microseconds since the recorder was created; fences fit the machine word they are cast to. -/
namespace Palisade.Testing
open Monitor

inductive OpKind where
  | tryAcquire
  | release
  | extend
  deriving DecidableEq

structure HistoryEntry where
  key : String
  op : OpKind
  ok : Bool
  /-- 0 when none. -/
  fence : Nat
  startUs : Nat
  endUs : Nat
  deriving DecidableEq

namespace HistoryEntry

/-- The millisecond an operation completed in. -/
def tMs (e : HistoryEntry) : Nat := e.endUs / 1000

def kind (e : HistoryEntry) : Option EventKind :=
  match e.op, e.ok with
  | .tryAcquire, true => some .grant
  | .tryAcquire, false => some .deny
  | .release, true => some .releaseOk
  | .release, false => some .releaseLost
  | .extend, _ => none

/-- The fence doubles as the identity of the holder. -/
def stamp (e : HistoryEntry) (kind : EventKind) : Event := ⟨e.tMs, e.fence, kind, e.fence⟩

def event (e : HistoryEntry) : Option Event := e.kind.map e.stamp

end HistoryEntry

/-- The events of one key, in the order of completion. -/
def clientEvents (key : String) (entries : List HistoryEntry) : List Event :=
  ((entries.filter fun e => decide (e.key = key)).filterMap HistoryEntry.event).mergeSort
    fun e f => decide (e.tMs ≤ f.tMs)

def checkClientHistory (key : String) (entries : List HistoryEntry) (ttlMs : Nat) :
    Except Violation Unit :=
  check (clientEvents key entries) ttlMs

/-- The entries of one key that become events, by the millisecond of their completion and
within one as they were recorded. -/
def timeline (key : String) (entries : List HistoryEntry) : List HistoryEntry :=
  ((entries.filter fun e => decide (e.key = key)).filter fun e => e.kind.isSome).mergeSort
    fun e f => decide (e.tMs ≤ f.tMs)

theorem filterMap_event (entries : List HistoryEntry) : entries.filterMap HistoryEntry.event =
    (entries.filter fun e => e.kind.isSome).map fun e => e.stamp (e.kind.getD .deny) := by
  induction entries with
  | nil => rfl
  | cons e rest ih => cases kind : e.kind <;> simp [HistoryEntry.event, kind, ih]

theorem clientEvents_eq (key : String) (entries : List HistoryEntry) :
    clientEvents key entries = (timeline key entries).filterMap HistoryEntry.event := by
  have decided : (timeline key entries).filter (fun e => e.kind.isSome) = timeline key entries := by
    refine List.filter_eq_self.mpr fun e member => ?_
    exact (List.mem_filter.mp (List.mem_mergeSort.mp member)).2
  rw [clientEvents, filterMap_event, filterMap_event, decided]
  symm
  apply List.map_mergeSort
  intro e _ f _
  rfl

theorem timed_clientEvents (key : String) (entries : List HistoryEntry) : Timed (clientEvents key entries) := by
  refine (List.pairwise_mergeSort ?_ ?_ _).imp fun order => of_decide_eq_true order
  · intro a b c first second
    simp only [decide_eq_true_eq] at first second ⊢
    omega
  · intro a b
    simp only [Bool.or_eq_true, decide_eq_true_eq]
    omega

theorem checkClientHistory_ok_iff {key : String} {entries : List HistoryEntry} {ttlMs : Nat} :
    checkClientHistory key entries ttlMs = .ok () ↔ LeasedMutex (clientEvents key entries) ttlMs :=
  check_eq_ok.trans (watch_ok_iff (timed_clientEvents key entries))

/-! Denials decide nothing. -/

def decides (e : Event) : Bool := decide (e.kind ≠ .deny)

variable {ttlMs t worker : Nat} {past history : List Event} {e grant : Event}

theorem open_filter_decides : Open ttlMs (past.filter decides) grant t ↔ Open ttlMs past grant t := by
  induction past using List.reverseRecOn with
  | nil => rfl
  | append_singleton past e ih =>
    by_cases decided : e.kind = .deny
    · rw [List.filter_append, open_concat, ← ih]
      simp [decides, decided]
    · rw [List.filter_append, List.filter_cons_of_pos (by simpa [decides] using decided), List.filter_nil,
        open_concat, open_concat, ih]

theorem accepted_filter_decides : accepted (past.filter decides) = accepted past := by
  unfold accepted
  rw [List.filter_filter]
  congr 1
  refine List.filter_congr fun e _ => ?_
  cases kind : e.kind <;> simp [decides, kind]

theorem admits_filter_decides : Admits ttlMs (past.filter decides) e ↔ Admits ttlMs past e := by
  have holds (worker t : Nat) : Holds ttlMs (past.filter decides) worker t ↔ Holds ttlMs past worker t :=
    exists_congr fun grant => and_congr_right fun _ => open_filter_decides
  unfold Admits
  split
  · simp only [open_filter_decides]
  · rw [holds]
  · rw [holds]
  · rw [holds, accepted_filter_decides]
  · rfl
  · rfl

theorem leasedMutex_filter_decides : LeasedMutex (history.filter decides) ttlMs ↔ LeasedMutex history ttlMs := by
  induction history using List.reverseRecOn with
  | nil => rfl
  | append_singleton past e ih =>
    by_cases decided : e.kind = .deny
    · have free : Admits ttlMs past e := by simp [Admits, decided]
      rw [List.filter_append, leasedMutex_concat, ← ih]
      simp [decides, decided, free]
    · rw [List.filter_append, List.filter_cons_of_pos (by simpa [decides] using decided), List.filter_nil,
        leasedMutex_concat, leasedMutex_concat, ih, admits_filter_decides]

/-- In a leased mutex only the window of the latest grant can be open. -/
theorem LeasedMutex.open_latest (legal : LeasedMutex past ttlMs) (late : ∀ e ∈ past, e.tMs ≤ t)
    (isOpen : Open ttlMs past grant t) :
    ∃ before since, past = before ++ grant :: since ∧ grant.kind = .grant ∧ t < grant.tMs + ttlMs ∧
      (∀ e ∈ since, ¬ (e.kind = .releaseOk ∧ e.worker = grant.worker)) ∧ ∀ e ∈ since, e.kind ≠ .grant := by
  obtain ⟨before, since, rfl, kind, running, unreleased⟩ := isOpen
  refine ⟨before, since, rfl, kind, running, unreleased, fun e member granted => ?_⟩
  obtain ⟨first, second, rfl⟩ := List.append_of_mem member
  have always := leasedMutex_iff.mp legal
  have admits := always (before ++ grant :: first) e second (by simp)
  refine admits.free granted (late e (by simp)) ⟨before, first, rfl, kind, running, ?_⟩
  exact fun r released => unreleased r (List.mem_append_left _ released)

/-! Runs of the mutex as lines of operations. Whether a lease still runs when a later
operation comes is left to the reading of the times. -/

namespace HistoryEntry

def Granted (e : HistoryEntry) : Prop := e.op = .tryAcquire ∧ e.ok = true

def Released (e : HistoryEntry) : Prop := e.op = .release ∧ e.ok = true

/-- A release that was told that its lease is gone. -/
def Lost (e : HistoryEntry) : Prop := e.op = .release ∧ e.ok = false

instance (e : HistoryEntry) : Decidable e.Granted := inferInstanceAs (Decidable (_ ∧ _))

instance (e : HistoryEntry) : Decidable e.Released := inferInstanceAs (Decidable (_ ∧ _))

instance (e : HistoryEntry) : Decidable e.Lost := inferInstanceAs (Decidable (_ ∧ _))

end HistoryEntry

section
variable {A : Type} (entry : A → HistoryEntry) (running : A → List A → A → Prop)

/-- Between the grant `g` and what follows `since`, the lease was not released. -/
def Unreleased (g : A) (since : List A) : Prop :=
  ∀ r ∈ since, ¬ ((entry r).Released ∧ (entry r).fence = (entry g).fence)

/-- When `e` comes after `past`, the lease of `g` is neither released nor run out. -/
def Leased (past : List A) (g e : A) : Prop :=
  ∃ before since, past = before ++ g :: since ∧ (entry g).Granted ∧ Unreleased entry g since ∧ running g since e

structure Correct (line : List A) : Prop where
  fenced : ∀ g ∈ line, (entry g).Granted → (entry g).fence ≠ 0
  distinct : line.Pairwise fun g h => (entry g).Granted → (entry h).Granted → (entry g).fence ≠ (entry h).fence
  /-- A grant comes after the release or the lease end of the grant before it. -/
  exclusive : Always (fun past e => (entry e).Granted → ∀ before g since, past = before ++ g :: since →
    (entry g).Granted → (∀ h ∈ since, ¬ (entry h).Granted) → Unreleased entry g since →
      ¬ running g since e) line
  released : Always (fun past e => (entry e).Released →
    ∃ g, (entry g).fence = (entry e).fence ∧ Leased entry running past g e) line
  lost : Always (fun past e => (entry e).Lost →
    ∀ g, (entry g).fence = (entry e).fence → ¬ Leased entry running past g e) line

/-- Whether less than `ttlMs` lies between the completions says whether a lease still runs. -/
def Punctual (ttlMs : Nat) (line : List A) : Prop :=
  Always (fun past e => (entry e).Granted ∨ (entry e).op = .release → ∀ before g since,
    past = before ++ g :: since → (entry g).Granted → Unreleased entry g since →
      (running g since e ↔ (entry e).tMs < (entry g).tMs + ttlMs)) line

/-- The event of an operation that is not denied. -/
def decision (a : A) : Option Event := (entry a).event.filter decides

end

section
variable {A : Type} {entry : A → HistoryEntry} {running : A → List A → A → Prop} {line : List A} {a g : A}

/-- Everything a decision can be. -/
theorem decision_cases {e : Event} (decided : decision entry a = some e) :
    ((entry a).Granted ∧ e = (entry a).stamp .grant) ∨ ((entry a).Released ∧ e = (entry a).stamp .releaseOk) ∨
      ((entry a).Lost ∧ e = (entry a).stamp .releaseLost) := by
  revert decided
  unfold decision
  generalize entry a = x
  obtain ⟨key, op, ok, fence, startUs, endUs⟩ := x
  cases op <;> cases ok <;>
    simp [HistoryEntry.event, HistoryEntry.kind, HistoryEntry.Granted, HistoryEntry.Released, HistoryEntry.Lost,
      Option.filter, decides, HistoryEntry.stamp, eq_comm]

theorem decision_granted (granted : (entry a).Granted) :
    decision entry a = some ((entry a).stamp .grant) := by
  simp [decision, HistoryEntry.event, HistoryEntry.kind, granted.1, granted.2, Option.filter, decides,
    HistoryEntry.stamp]

theorem decision_released (released : (entry a).Released) :
    decision entry a = some ((entry a).stamp .releaseOk) := by
  simp [decision, HistoryEntry.event, HistoryEntry.kind, released.1, released.2, Option.filter, decides,
    HistoryEntry.stamp]

/-- Which operations the releases of a hold are. -/
theorem unreleased_iff {since : List A} : Unreleased entry g since ↔
    ∀ e ∈ since.filterMap (decision entry), ¬ (e.kind = .releaseOk ∧ e.worker = (entry g).fence) := by
  constructor
  · rintro unreleased e member ⟨kind, own⟩
    obtain ⟨r, inside, decided⟩ := List.mem_filterMap.mp member
    obtain ⟨_, rfl⟩ | ⟨released, rfl⟩ | ⟨_, rfl⟩ := decision_cases decided
    · contradiction
    · exact unreleased r inside ⟨released, own⟩
    · contradiction
  · rintro none r member ⟨released, own⟩
    exact none _ (List.mem_filterMap.mpr ⟨r, member, decision_released released⟩) ⟨rfl, own⟩

theorem open_decisions {past : List A} : Open ttlMs (past.filterMap (decision entry)) grant t ↔
    ∃ before g since, past = before ++ g :: since ∧ (entry g).Granted ∧ grant = (entry g).stamp .grant ∧
      Unreleased entry g since ∧ t < (entry g).tMs + ttlMs := by
  constructor
  · rintro ⟨_, _, split, kind, runs, unreleased⟩
    obtain ⟨before, g, since, rfl, decided, rfl, rfl⟩ := filterMap_eq_append_cons.mp split
    obtain ⟨granted, rfl⟩ | ⟨_, rfl⟩ | ⟨_, rfl⟩ := decision_cases decided
    · exact ⟨before, g, since, rfl, granted, rfl, unreleased_iff.mpr unreleased, runs⟩
    · contradiction
    · contradiction
  · rintro ⟨before, g, since, rfl, granted, rfl, unreleased, runs⟩
    refine ⟨_, _, filterMap_eq_append_cons.mpr ⟨before, g, since, rfl, decision_granted granted, rfl, rfl⟩, rfl,
      runs, unreleased_iff.mp unreleased⟩

/-- A lease that still runs is an open window. -/
theorem leased_iff_open (punctual : Punctual entry running ttlMs line) {past rest : List A}
    (split : line = past ++ a :: rest) (decides : (entry a).Granted ∨ (entry a).op = .release) :
    Open ttlMs (past.filterMap (decision entry)) grant (entry a).tMs ↔
      ∃ g, grant = (entry g).stamp .grant ∧ Leased entry running past g a := by
  rw [open_decisions]
  constructor
  · rintro ⟨before, g, since, pieces, granted, same, unreleased, runs⟩
    refine ⟨g, same, before, since, pieces, granted, unreleased, ?_⟩
    exact (punctual past a rest split decides before g since pieces granted unreleased).mpr runs
  · rintro ⟨g, same, before, since, pieces, granted, unreleased, runs⟩
    refine ⟨before, g, since, pieces, granted, same, unreleased, ?_⟩
    exact (punctual past a rest split decides before g since pieces granted unreleased).mp runs

theorem leased_iff_holds (punctual : Punctual entry running ttlMs line) {past rest : List A}
    (split : line = past ++ a :: rest) (decides : (entry a).Granted ∨ (entry a).op = .release) :
    Holds ttlMs (past.filterMap (decision entry)) (entry a).fence (entry a).tMs ↔
      ∃ g, (entry g).fence = (entry a).fence ∧ Leased entry running past g a := by
  constructor
  · rintro ⟨grant, own, isOpen⟩
    obtain ⟨g, rfl, leased⟩ := (leased_iff_open punctual split decides).mp isOpen
    exact ⟨g, own, leased⟩
  · rintro ⟨g, own, leased⟩
    exact ⟨_, own, (leased_iff_open punctual split decides).mpr ⟨g, rfl, leased⟩⟩

/-- What comes next in a correct run is admitted after what a leased mutex allowed before. -/
theorem Correct.admits (correct : Correct entry running line) (punctual : Punctual entry running ttlMs line)
    {past rest : List A} (split : line = past ++ a :: rest) (decided : decision entry a = some e)
    (legal : LeasedMutex (past.filterMap (decision entry)) ttlMs)
    (late : ∀ before ∈ past.filterMap (decision entry), before.tMs ≤ e.tMs) :
    Admits ttlMs (past.filterMap (decision entry)) e := by
  obtain ⟨granted, rfl⟩ | ⟨released, rfl⟩ | ⟨lost, rfl⟩ := decision_cases decided
  · refine ⟨fun grant isOpen => ?_, correct.fenced a (split ▸ by simp) granted⟩
    obtain ⟨_, _, pieces, kind, runs, unreleased, latest⟩ := legal.open_latest late isOpen
    obtain ⟨before, g, since, apart, found, rfl, rfl⟩ := filterMap_eq_append_cons.mp pieces
    obtain ⟨holder, rfl⟩ | ⟨_, rfl⟩ | ⟨_, rfl⟩ := decision_cases found
    · have open' := unreleased_iff.mpr unreleased
      refine correct.exclusive past a rest split granted before g since apart holder ?_ open' ?_
      · intro h inside again
        exact latest _ (List.mem_filterMap.mpr ⟨h, inside, decision_granted again⟩) rfl
      · exact (punctual past a rest split (.inl granted) before g since apart holder open').mpr runs
    · contradiction
    · contradiction
  · exact (leased_iff_holds punctual split (.inr released.1)).mpr (correct.released past a rest split released)
  · rintro holds
    obtain ⟨g, own, leased⟩ := (leased_iff_holds punctual split (.inr lost.1)).mp holds
    exact correct.lost past a rest split lost g own leased

/-- Correct runs whose decisions come in time order are histories of a leased mutex. -/
theorem Correct.leasedMutex (correct : Correct entry running line) (punctual : Punctual entry running ttlMs line)
    (timed : Timed (line.filterMap (decision entry))) :
    LeasedMutex (line.filterMap (decision entry)) ttlMs := by
  suffices prefixes : ∀ past rest, line = past ++ rest → LeasedMutex (past.filterMap (decision entry)) ttlMs from
    prefixes line [] (List.append_nil line).symm
  intro past
  induction past using List.reverseRecOn with
  | nil => exact fun _ _ => .nil
  | append_singleton past a ih =>
    intro rest split
    rw [List.append_assoc, List.singleton_append] at split
    have legal := ih (a :: rest) split
    rw [List.filterMap_append]
    cases decided : decision entry a with
    | none => simpa [decided] using legal
    | some e =>
      have late : ∀ before ∈ past.filterMap (decision entry), before.tMs ≤ e.tMs := by
        have whole := timed
        rw [split, List.filterMap_append, List.filterMap_cons_some decided] at whole
        exact fun before member => (List.pairwise_append.mp whole).2.2 before member e List.mem_cons_self
      rw [List.filterMap_cons_some decided, List.filterMap_nil]
      exact leasedMutex_concat.mpr ⟨legal, correct.admits punctual split decided legal late⟩

/-- A grant inside a running lease is no history of a leased mutex. -/
theorem not_leasedMutex_of_clash (punctual : Punctual entry running ttlMs line) {past rest : List A}
    (split : line = past ++ a :: rest) (granted : (entry a).Granted) (leased : Leased entry running past g a) :
    ¬ LeasedMutex (line.filterMap (decision entry)) ttlMs := by
  intro legal
  have pieces : line.filterMap (decision entry) = past.filterMap (decision entry) ++
      (entry a).stamp .grant :: rest.filterMap (decision entry) :=
    filterMap_eq_append_cons.mpr ⟨past, a, rest, split, decision_granted granted, rfl, rfl⟩
  have isOpen := (leased_iff_open punctual split (.inl granted)).mpr ⟨g, rfl, leased⟩
  exact legal.exclusive _ _ _ pieces rfl _ isOpen

end

/-! Extensions. -/

/-- Less than the lease has passed since the acquire, in whole milliseconds. -/
def Unextended (ttlMs : Nat) (g : HistoryEntry) (_ : List HistoryEntry) (e : HistoryEntry) : Prop :=
  e.tMs < g.tMs + ttlMs

instance (ttlMs : Nat) (g : HistoryEntry) (since : List HistoryEntry) (e : HistoryEntry) :
    Decidable (Unextended ttlMs g since e) := inferInstanceAs (Decidable (_ < _))

/-- The latest successful extension of a lease, or its acquire. -/
def lastRenewal (g : HistoryEntry) (since : List HistoryEntry) : HistoryEntry :=
  (since.filter fun x => decide (x.op = .extend ∧ x.ok = true ∧ x.fence = g.fence)).getLast?.getD g

/-- Less than the lease has passed since it was last renewed. -/
def Extended (ttlMs : Nat) (g : HistoryEntry) (since : List HistoryEntry) (e : HistoryEntry) : Prop :=
  e.endUs < (lastRenewal g since).endUs + 1000 * ttlMs

instance (ttlMs : Nat) (g : HistoryEntry) (since : List HistoryEntry) (e : HistoryEntry) :
    Decidable (Extended ttlMs g since e) := inferInstanceAs (Decidable (_ < _))

/-- A grant completes inside another's lease. -/
def Clash (running : HistoryEntry → List HistoryEntry → HistoryEntry → Prop) (line : List HistoryEntry) : Prop :=
  ∃ past e rest, line = past ++ e :: rest ∧ e.Granted ∧ ∃ g, Leased id running past g e

variable {key : String} {entries : List HistoryEntry}

theorem decisions_eq (line : List HistoryEntry) :
    line.filterMap (decision id) = (line.filterMap HistoryEntry.event).filter decides :=
  List.filter_filterMap.symm

theorem decisions_timeline :
    (timeline key entries).filterMap (decision id) = (clientEvents key entries).filter decides := by
  rw [decisions_eq, clientEvents_eq]

theorem checkClientHistory_error (illegal : ¬ LeasedMutex (clientEvents key entries) ttlMs) :
    ∃ v, checkClientHistory key entries ttlMs = .error v := by
  cases result : checkClientHistory key entries ttlMs with
  | error v => exact ⟨v, rfl⟩
  | ok u => exact absurd (checkClientHistory_ok_iff.mp result) illegal

/-- Leases count from the completion of their acquire: extensions change no verdict. -/
theorem leases_count_from_acquire (key : String) (entries : List HistoryEntry) (ttlMs : Nat) :
    (Clash (Unextended ttlMs) (timeline key entries) → ∃ v, checkClientHistory key entries ttlMs = .error v) ∧
    (Correct id (Unextended ttlMs) (timeline key entries) → checkClientHistory key entries ttlMs = .ok ()) := by
  have punctual : Punctual id (Unextended ttlMs) ttlMs (timeline key entries) :=
    fun _ _ _ _ _ _ _ _ _ _ _ => Iff.rfl
  constructor
  · rintro ⟨past, e, rest, split, granted, g, leased⟩
    refine checkClientHistory_error fun legal => not_leasedMutex_of_clash punctual split granted leased ?_
    rwa [decisions_timeline, leasedMutex_filter_decides]
  · intro correct
    have timed : Timed ((timeline key entries).filterMap (decision id)) := by
      rw [decisions_timeline]
      exact (timed_clientEvents key entries).sublist List.filter_sublist
    have legal := correct.leasedMutex punctual timed
    rw [decisions_timeline, leasedMutex_filter_decides] at legal
    exact checkClientHistory_ok_iff.mpr legal

theorem clientEvents_sorted (own : ∀ e ∈ entries, e.key = key) (sorted : entries.Pairwise (·.tMs ≤ ·.tMs)) :
    clientEvents key entries = entries.filterMap HistoryEntry.event := by
  rw [clientEvents, List.filter_eq_self.mpr fun e member => decide_eq_true (own e member)]
  refine List.mergeSort_of_pairwise (List.pairwise_filterMap.mpr (sorted.imp ?_))
  intro e f order x first y second
  obtain ⟨_, _, rfl⟩ := Option.map_eq_some_iff.mp first
  obtain ⟨_, _, rfl⟩ := Option.map_eq_some_iff.mp second
  exact decide_eq_true order

theorem timeline_sorted (own : ∀ e ∈ entries, e.key = key) (sorted : entries.Pairwise (·.tMs ≤ ·.tMs)) :
    timeline key entries = entries.filter fun e => e.kind.isSome := by
  rw [timeline, List.filter_eq_self.mpr fun e member => decide_eq_true (own e member)]
  refine List.mergeSort_of_pairwise ((sorted.sublist List.filter_sublist).imp ?_)
  exact fun order => decide_eq_true order

/-- An acquire of `k` and its extension, 80 ms later. -/
def renewed : List HistoryEntry := [⟨"k", .tryAcquire, true, 1, 0, 0⟩, ⟨"k", .extend, true, 1, 79000, 80000⟩]

/-- A grant 90 ms after the first is refused, a release then passes. -/
theorem leases_count_from_acquire_renewed :
    (∃ v, checkClientHistory "k" (renewed ++ [⟨"k", .tryAcquire, true, 2, 89000, 90000⟩]) 100 = .error v) ∧
    checkClientHistory "k" (renewed ++ [⟨"k", .release, true, 1, 89000, 90000⟩]) 100 = .ok () := by
  constructor
  · refine (leases_count_from_acquire "k" _ 100).1 ?_
    rw [timeline_sorted (by decide) (by decide)]
    refine ⟨[⟨"k", .tryAcquire, true, 1, 0, 0⟩], _, [], rfl, by decide, _, [], _, rfl, by decide, ?_, by decide⟩
    simp [Unreleased]
  · refine (leases_count_from_acquire "k" _ 100).2 ?_
    rw [timeline_sorted (by decide) (by decide)]
    refine ⟨by decide, by decide, ?_, ?_, ?_⟩
    · simp [renewed, always_cons, HistoryEntry.Granted, HistoryEntry.kind]
    · simp only [renewed, List.cons_append, List.nil_append, HistoryEntry.kind, List.filter_cons, Option.isSome_some,
        Option.isSome_none, if_true, Bool.false_eq_true, if_false, List.filter_nil, always_cons, always_nil, and_true]
      refine ⟨by simp [HistoryEntry.Released], fun _ => ?_⟩
      refine ⟨⟨"k", .tryAcquire, true, 1, 0, 0⟩, rfl, [], _, rfl, by decide, ?_, by decide⟩
      simp [Unreleased]
    · simp [renewed, always_cons, HistoryEntry.Lost, HistoryEntry.kind]

/-- A second grant and a late release, both 150 ms after the first grant of 100 ms. -/
theorem extensions_not_honoured :
    (¬ ∀ key entries ttlMs, (∀ e ∈ entries, e.key = key) → entries.Pairwise (·.endUs ≤ ·.endUs) →
      Clash (Extended ttlMs) entries → ∃ v, checkClientHistory key entries ttlMs = .error v) ∧
    (¬ ∀ key entries ttlMs, (∀ e ∈ entries, e.key = key) → entries.Pairwise (·.endUs ≤ ·.endUs) →
      Correct id (Extended ttlMs) entries → (∀ e ∈ entries, ¬ e.Lost) →
        checkClientHistory key entries ttlMs = .ok ()) := by
  constructor
  · intro caught
    have clash : Clash (Extended 100) (renewed ++ [⟨"k", .tryAcquire, true, 2, 149000, 150000⟩]) := by
      refine ⟨renewed, _, [], rfl, by decide, _, [], _, rfl, by decide, ?_, by decide⟩
      simp [Unreleased, HistoryEntry.Released]
    obtain ⟨v, error⟩ := caught "k" _ 100 (by decide) (by decide) clash
    have missed : check (List.filterMap HistoryEntry.event
        (renewed ++ [⟨"k", .tryAcquire, true, 2, 149000, 150000⟩])) 100 = .ok () := by decide
    rw [checkClientHistory, clientEvents_sorted (by decide) (by decide), missed] at error
    contradiction
  · intro passes
    have correct : Correct id (Extended 100) (renewed ++ [⟨"k", .release, true, 1, 149000, 150000⟩]) := by
      refine ⟨by decide, by decide, ?_, ?_, ?_⟩
      · simp [renewed, always_cons, HistoryEntry.Granted]
      · simp only [renewed, List.cons_append, List.nil_append, always_cons, always_nil, and_true]
        refine ⟨by simp [HistoryEntry.Released], by simp [HistoryEntry.Released], fun _ => ?_⟩
        refine ⟨⟨"k", .tryAcquire, true, 1, 0, 0⟩, rfl, [], _, rfl, by decide, ?_, by decide⟩
        simp [Unreleased, HistoryEntry.Released]
      · simp [renewed, always_cons, HistoryEntry.Lost]
    have ok := passes "k" _ 100 (by decide) (by decide) correct (by decide)
    rw [checkClientHistory, clientEvents_sorted (by decide) (by decide)] at ok
    exact absurd ok (by decide)

/-! Effects and completions. -/

/-- A recorded operation that took effect at one instant of its interval. -/
structure Operation where
  entry : HistoryEntry
  instantUs : Nat
  within : entry.startUs ≤ instantUs ∧ instantUs ≤ entry.endUs

/-- Less than the lease has passed since the acquire took effect. -/
def Operation.Running (ttlMs : Nat) (g : Operation) (_ : List Operation) (e : Operation) : Prop :=
  e.instantUs < g.instantUs + 1000 * ttlMs

/-- A correct run of the mutex on one key, in the order of its effects. -/
structure MutexRun (key : String) (ttlMs : Nat) (run : List Operation) : Prop where
  ordered : run.Pairwise (·.instantUs ≤ ·.instantUs)
  own : ∀ o ∈ run, o.entry.key = key
  plain : ∀ o ∈ run, o.entry.op ≠ .extend
  correct : Correct Operation.entry (Operation.Running ttlMs) run

/-- Grants and releases, without the denials. -/
def HistoryEntry.deciding (e : HistoryEntry) : Bool := decide (e.op ≠ .tryAcquire ∨ e.ok = true)

/-- The entries recorded of a run. Their completions, to the millisecond and within one as
recorded, keep the order in which the grants and releases took effect. -/
structure RecordedInOrder (key : String) (entries : List HistoryEntry) (run : List Operation) : Prop where
  recorded : entries.Perm (run.map Operation.entry)
  inOrder : (timeline key entries).filter HistoryEntry.deciding =
    (run.map Operation.entry).filter HistoryEntry.deciding

theorem decision_deciding (line : List HistoryEntry) :
    (line.filter HistoryEntry.deciding).filterMap (decision id) = line.filterMap (decision id) := by
  rw [List.filterMap_filter]
  congr 1
  funext e
  obtain ⟨key, op, ok, fence, startUs, endUs⟩ := e
  cases op <;> cases ok <;> rfl

/-- Traffic whose completions tell the same order and the same running leases as its
effects raises no false alarm. -/
theorem no_false_alarm {run : List Operation} (legal : MutexRun key ttlMs run)
    (recording : RecordedInOrder key entries run)
    (punctual : Punctual Operation.entry (Operation.Running ttlMs) ttlMs run) :
    checkClientHistory key entries ttlMs = .ok () := by
  have same : run.filterMap (decision Operation.entry) = (clientEvents key entries).filter decides := by
    rw [← decisions_timeline, ← decision_deciding, recording.inOrder, decision_deciding, List.filterMap_map]
    rfl
  have timed : Timed (run.filterMap (decision Operation.entry)) := by
    rw [same]
    exact (timed_clientEvents key entries).sublist List.filter_sublist
  have mutex := legal.correct.leasedMutex punctual timed
  rw [same, leasedMutex_filter_decides] at mutex
  exact checkClientHistory_ok_iff.mpr mutex

/-- A hold of 20 ms and a grant after it, whose answer may be overtaken. -/
def handover (releaseEndUs : Nat) (late : 25000 ≤ releaseEndUs) : List Operation :=
  [⟨⟨"k", .tryAcquire, true, 1, 0, 10000⟩, 5000, by decide⟩,
    ⟨⟨"k", .release, true, 1, 20000, releaseEndUs⟩, 25000, by simp, late⟩,
    ⟨⟨"k", .tryAcquire, true, 2, 22000, 40000⟩, 30000, by decide⟩]

theorem handover_mutexRun {releaseEndUs : Nat} (late : 25000 ≤ releaseEndUs) :
    MutexRun "k" 100 (handover releaseEndUs late) where
  ordered := by simp [handover]
  own := by simp [handover]
  plain := by simp [handover]
  correct := by
    refine ⟨by simp [handover], by simp [handover, HistoryEntry.Granted], ?_, ?_, ?_⟩
    · simp only [handover, always_cons, always_nil, and_true]
      refine ⟨by simp, by simp [HistoryEntry.Granted], ?_⟩
      rintro - (_ | ⟨_, _ | ⟨_, _⟩⟩) g since split granted _ unreleased
      · cases split
        exact absurd ⟨⟨rfl, rfl⟩, rfl⟩ (unreleased _ List.mem_cons_self)
      · cases split
        exact absurd granted.1 (by simp)
      · simp at split
    · simp only [handover, always_cons, always_nil, and_true]
      refine ⟨by simp [HistoryEntry.Released], fun _ => ?_, by simp [HistoryEntry.Released]⟩
      refine ⟨_, rfl, [], [], rfl, ⟨rfl, rfl⟩, by simp [Unreleased], ?_⟩
      simp [Operation.Running]
    · simp [handover, always_cons, HistoryEntry.Lost]

theorem handover_raises_no_alarm : checkClientHistory "k"
    ((handover 35000 (by decide)).map Operation.entry) 100 = .ok () := by
  refine no_false_alarm (handover_mutexRun _) ⟨.rfl, ?_⟩ ?_
  · rw [timeline_sorted (by decide) (by decide)]
    rfl
  · simp only [Punctual, handover, always_cons, always_nil, and_true]
    refine ⟨by simp, ?_, ?_⟩
    · rintro - (_ | ⟨_, _⟩) g since split granted unreleased
      · cases split
        simp [Operation.Running, HistoryEntry.tMs]
      · simp at split
    · rintro - (_ | ⟨_, _ | ⟨_, _⟩⟩) g since split granted unreleased
      · cases split
        exact absurd ⟨⟨rfl, rfl⟩, rfl⟩ (unreleased _ List.mem_cons_self)
      · cases split
        exact absurd granted.1 (by simp)
      · simp at split

/-- The release is answered after the next grant, although it took effect before it. -/
theorem overtaken_release_alarms :
    ¬ ∀ key ttlMs run entries, MutexRun key ttlMs run → entries.Perm (run.map Operation.entry) →
      checkClientHistory key entries ttlMs = .ok () := by
  intro silent
  have ok := silent "k" 100 (handover 60000 (by decide))
    [⟨"k", .tryAcquire, true, 1, 0, 10000⟩, ⟨"k", .tryAcquire, true, 2, 22000, 40000⟩,
      ⟨"k", .release, true, 1, 20000, 60000⟩] (handover_mutexRun _) (by decide)
  rw [checkClientHistory, clientEvents_sorted (by decide) (by decide)] at ok
  exact absurd ok (by decide)

end Palisade.Testing
