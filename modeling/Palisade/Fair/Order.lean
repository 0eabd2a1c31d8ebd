import Palisade.Fair.Queue

/-! No barging. The queue keeps the order of arrival, and a grant goes to the oldest
waiter that beats, unless the list expired while one of its waiters still did: its
retention follows the lease of the last call, the heartbeats do not. -/
namespace Palisade.Fair
open Redis Single Transition

/-- The queue is in order of arrival, and every waiter that beats is in it. -/
structure Line.Ordered (line : Line) (arrivals : List String) : Prop where
  distinct : arrivals.Nodup
  ordered : line.items.Sublist arrivals
  present : ∀ token ∈ arrivals, line.dead token = false → token ∈ line.items

theorem ahead_append {winner : String} {newer older : List String} (absent : winner ∉ newer) :
    ahead winner (newer ++ winner :: older) = older := by
  have passed : ∀ token ∈ newer, decide (token ≠ winner) = true := by
    intro token member
    exact decide_eq_true fun same => absent (same ▸ member)
  unfold ahead
  rw [if_pos (by simp), List.dropWhile_append_of_pos passed, List.dropWhile_cons_of_neg (by simp),
    List.tail_cons]

/-- What comes before an element of a sublist comes before it in the list. -/
theorem sublist_before {α : Type} {first newer older : List α} {a : α} (once : a ∉ older)
    (inside : (first ++ [a]).Sublist (newer ++ a :: older)) : first.Sublist newer := by
  induction newer generalizing first with
  | nil =>
    cases first with
    | nil => exact List.nil_sublist _
    | cons b rest =>
      exfalso
      apply once
      cases inside with
      | cons _ skipped => exact skipped.subset (by simp)
      | cons_cons _ taken => exact taken.subset (by simp)
  | cons c newer ih =>
    cases first with
    | nil => exact List.nil_sublist _
    | cons b rest =>
      cases inside with
      | cons _ skipped => exact List.Sublist.cons c (ih skipped)
      | cons_cons _ taken => exact (ih taken).cons_cons c

namespace Line.Ordered
variable {line : Line} {arrivals : List String} {token winner : String}
  (ordered : line.Ordered arrivals)
include ordered

/-- Nobody who beats is ahead of anybody when all entries are dead. -/
theorem none_ahead (dead : line.alive = []) (winner : String) :
    ((ahead winner arrivals).filter fun token => !line.dead token) = [] := by
  apply List.filter_eq_nil_iff.mpr
  intro token member
  have arrived : token ∈ arrivals := by
    unfold ahead at member
    split at member
    · exact List.dropWhile_subset _ (List.mem_of_mem_tail member)
    · exact member
  cases dying : line.dead token with
  | true => simp
  | false =>
    have alive := mem_alive (ordered.present token arrived dying) dying
    rw [dead] at alive
    contradiction

/-- Nobody who beats is ahead of the oldest entry that does. -/
theorem oldest_ahead (last : line.alive.getLast? = some winner) :
    ((ahead winner arrivals).filter fun token => !line.dead token) = [] := by
  have split := List.dropLast_append_getLast? _ last
  have inside : (line.alive.dropLast ++ [winner]).Sublist arrivals := by
    rw [split]
    exact alive_sublist.trans ordered.ordered
  have entered : winner ∈ arrivals := inside.subset (by simp)
  obtain ⟨newer, older, rfl⟩ := List.append_of_mem entered
  obtain ⟨_, tail, apart⟩ := List.nodup_append.mp ordered.distinct
  have fresh : winner ∉ newer := fun member => apart winner member winner (by simp) rfl
  have once : winner ∉ older := (List.nodup_cons.mp tail).1
  rw [ahead_append fresh]
  apply List.filter_eq_nil_iff.mpr
  intro token member
  cases dying : line.dead token with
  | true => simp
  | false =>
    exfalso
    have alive := mem_alive (ordered.present token (by simp [member]) dying) dying
    rw [← split] at alive
    rcases List.mem_append.mp alive with before | same
    · have later := (sublist_before once inside).subset before
      exact apart token later token (by simp [member]) rfl
    · rw [List.mem_singleton.mp same] at member
      exact once member

theorem trim_alive : (line.trim line.alive).Ordered arrivals where
  distinct := ordered.distinct
  ordered := by
    rw [items_trim_alive]
    exact alive_sublist.trans ordered.ordered
  present token arrived beating := by
    rw [items_trim_alive]
    exact mem_alive (ordered.present token arrived beating) beating

/-- A waiter takes a place behind everybody, or keeps the one it has. -/
theorem join (now ttl hbTtl : Nat) (token : String) :
    (line.join now token ttl hbTtl).Ordered
      (if token ∈ line.items ∨ (token ∈ arrivals ∧ line.dead token = false) then arrivals
        else token :: arrivals.erase token) := by
  have beats (other : String) (distinct : other ≠ token)
      (beating : (line.join now token ttl hbTtl).dead other = false) : line.dead other = false := by
    simpa [Line.dead, Line.join, Function.update_of_ne distinct] using beating
  by_cases placed : token ∈ line.items
  · rw [if_pos (.inl placed)]
    refine ⟨ordered.distinct, ?_, ?_⟩
    · rw [join_items, if_pos placed]
      exact ordered.ordered
    · intro other arrived beating
      apply mem_join.mpr
      by_cases same : other = token
      · exact .inl same
      · exact .inr (ordered.present other arrived (beats other same beating))
  · have lapsed : ¬ (token ∈ line.items ∨ (token ∈ arrivals ∧ line.dead token = false)) := by
      rintro (member | ⟨arrived, beating⟩)
      · exact placed member
      · exact placed (ordered.present token arrived beating)
    rw [if_neg lapsed]
    constructor
    · exact List.nodup_cons.mpr ⟨ordered.distinct.not_mem_erase, ordered.distinct.erase _⟩
    · rw [join_items, if_neg placed]
      apply List.Sublist.cons_cons
      have rest := ordered.ordered.erase token
      rwa [List.erase_of_not_mem placed] at rest
    · intro other arrived beating
      apply mem_join.mpr
      rcases List.mem_cons.mp arrived with same | old
      · exact .inl same
      · have distinct : other ≠ token := by
          rintro rfl
          exact ordered.distinct.not_mem_erase old
        exact .inr (ordered.present other (List.mem_of_mem_erase old) (beats other distinct beating))

/-- The winner leaves the order. -/
theorem win {left : List String} (part : left.Sublist line.alive) (gone : winner ∉ left)
    (rest : ∀ token ∈ line.alive, token ≠ winner → token ∈ left) (stop : Nat) :
    ((line.trim left).grant winner stop).Ordered (arrivals.erase winner) := by
  have items : ((line.trim left).grant winner stop).items = left := items_trim_sublist part
  refine ⟨ordered.distinct.erase _, ?_, ?_⟩
  · rw [items]
    have inside := (part.trans (alive_sublist.trans ordered.ordered)).erase winner
    rwa [List.erase_of_not_mem gone] at inside
  · intro token arrived beating
    rw [items]
    have distinct : token ≠ winner := by
      rintro rfl
      exact ordered.distinct.not_mem_erase arrived
    have kept := ordered.present token (List.mem_of_mem_erase arrived) beating
    exact rest token (mem_alive kept beating) distinct

end Line.Ordered

/-- The queue, if it expired since the last script, had no waiter in it that still
beats. -/
def Kept (key : String) (s : Waiters) (timed : Timed) : Prop :=
  ∀ token ∈ (view key s.db s.now).items, token ∈ (view key s.db (s.now + timed.delay)).items ∨
    (view key s.db (s.now + timed.delay)).dead token = true

instance (key : String) (s : Waiters) (timed : Timed) : Decidable (Kept key s timed) :=
  inferInstanceAs (Decidable (∀ token ∈ (view key s.db s.now).items, _))

namespace Waiters

/-- What the runs keep: the order, and nobody was ever passed over. -/
structure Fifo (key : String) (s : Waiters) : Prop where
  inv : s.Inv key
  ordered : (view key s.db s.now).Ordered s.arrivals
  patient : s.overtaken = []

theorem Fifo.wait {s : Waiters} {timed : Timed} (fifo : s.Fifo key) (kept : Kept key s timed) :
    (view key s.db (s.now + timed.delay)).Ordered s.arrivals := by
  have later := Nat.le_add_right s.now timed.delay
  refine ⟨fifo.ordered.distinct, ?_, ?_⟩
  · rcases items_later later key s.db with same | empty
    · rw [same]
      exact fifo.ordered.ordered
    · rw [empty]
      exact List.nil_sublist _
  · intro token arrived beating
    have before := fifo.ordered.present token arrived (dead_later later beating)
    rcases kept token before with member | dead
    · exact member
    · simp [dead] at beating

theorem record_ordered {s : Waiters} {now : Nat} {db : Keyspace} {call : Call} {status : Int}
    (ordered : (view key s.db now).Ordered s.arrivals) (proper : (view key s.db now).Proper)
    (patient : s.overtaken = [])
    (effect : (view key s.db now).Effect now call status (view key db now)) :
    (view key db now).Ordered (s.record key now db call status).arrivals ∧
      (s.record key now db call status).overtaken = [] := by
  have distinct : (view key s.db now).alive.Nodup := proper.distinct.sublist Line.alive_sublist
  unfold record
  generalize view key db now = after at effect
  generalize view key s.db now = line at *
  cases effect with
  | refreshed held => exact ⟨⟨ordered.distinct, ordered.ordered, ordered.present⟩, patient⟩
  | queued held other =>
    simp only [Call.winner, Call.arrive, held, Option.isSome_some, if_true]
    exact ⟨ordered.join .., patient⟩
  | granted free dead =>
    simp only [Call.winner, ordered.none_ahead dead, patient, List.append_nil, and_true]
    exact ordered.win (List.nil_sublist _) (by simp) (by simp [dead]) _
  | promoted free last =>
    simp only [Call.winner, ordered.oldest_ahead last, patient, List.append_nil, and_true]
    apply ordered.win List.erase_sublist distinct.not_mem_erase
    intro token member other
    exact (List.mem_erase_of_ne other).mpr member
  | blocked free last other =>
    simp only [Call.winner, Call.arrive, free, Option.isSome_none, Bool.false_eq_true, if_false]
    refine ⟨?_, patient⟩
    have joined := ordered.trim_alive.join now
    rw [Line.items_trim_alive] at joined
    exact joined ..
  | freed held dead =>
    have empty : (line.trim []).items = [] := Line.items_trim fun _ => rfl
    refine ⟨⟨ordered.distinct, ?_, ?_⟩, patient⟩
    · exact empty.symm ▸ List.nil_sublist _
    · intro token arrived beating
      have alive := Line.mem_alive (ordered.present token arrived beating) beating
      rw [dead] at alive
      contradiction
  | handed held last =>
    have split := List.dropLast_append_getLast? _ last
    simp only [Call.winner, Line.grant, Option.map_some, ordered.oldest_ahead last, patient,
      List.append_nil, and_true]
    rw [← split] at distinct
    obtain ⟨_, _, apart⟩ := List.nodup_append.mp distinct
    apply ordered.win (List.dropLast_sublist _)
    · exact fun member => apart _ member _ (List.mem_singleton_self _) rfl
    · intro token member other
      rw [← split] at member
      rcases List.mem_append.mp member with inside | same
      · exact inside
      · exact absurd (List.mem_singleton.mp same) other
  | refused absent => exact ⟨ordered, patient⟩

theorem Fifo.step {s t : Waiters} {timed : Timed} (fifo : s.Fifo key) (kept : Kept key s timed)
    (stepped : (fair key).step s timed = some t) : t.Fifo key := by
  have inv := fifo.inv.step stepped
  obtain ⟨status, db, sound, rfl, effect⟩ := step_effect fifo.inv.sound stepped
  obtain ⟨ordered, patient⟩ := record_ordered (fifo.wait kept)
    (fifo.inv.later (Nat.le_add_right ..)) fifo.patient effect
  exact ⟨inv, by simpa using ordered, patient⟩

theorem fifo_reachable {s : Waiters} (reach : (fair key).ReachableWhen (Kept key) s) :
    s.Fifo key := by
  refine reach.invariant ?_ fun s timed t fifo kept stepped => fifo.step kept stepped
  intro s first
  refine ⟨inv_reachable (.initial first), ?_, first.2.2.2.2.2⟩
  have empty : (view key s.db s.now).items = [] := by
    simp [Line.items, view, Keyspace.lookup, first.2.1]
  exact ⟨by simp [first.2.2.2.2.1], by simp [empty], by simp [first.2.2.2.2.1]⟩

end Waiters

/-- Nobody is granted or handed the lock past a waiter that enqueued earlier and
still beats, in every run in which the queue never expires over such a waiter. -/
theorem no_barging {s : Waiters} (reach : (fair key).ReachableWhen (Kept key) s) :
    s.overtaken = [] :=
  (Waiters.fifo_reachable reach).patient

/-- Two waiters are served in order of arrival, the second by handoff from the first. -/
theorem no_barging_in_turn : ∃ s : Waiters, s.overtaken = [] ∧
    (view "orders" s.db s.now).holder = some ("c", 30030) ∧ s.arrivals = [] := by
  obtain ⟨s, reach, facts⟩ := Machine.exists_reachableWhen (Kept "orders")
    (fun s : Waiters => (view "orders" s.db s.now).holder = some ("c", 30030) ∧ s.arrivals = [])
    (Waiters.fresh_initial "orders")
    [⟨0, .acquire "a" 1000 2000⟩, ⟨10, .acquire "b" 1000 2000⟩, ⟨10, .acquire "c" 1000 2000⟩,
      ⟨10, .release "a" 30000⟩, ⟨0, .release "b" 30000⟩]
    (by decide)
  exact ⟨s, no_barging reach, facts⟩

/-- A waiter polls with a lease of ten milliseconds: its place is kept for a hundred,
its heartbeat for two seconds. In between the holder releases and a newcomer is
granted the lock. -/
theorem expired_queue_admits_newcomer : ¬ ∀ s, (fair "orders").Reachable s → s.overtaken = [] := by
  intro always
  obtain ⟨s, reach, passed⟩ := Machine.exists_reachableWhen (fun _ _ => True)
    (fun s : Waiters => s.overtaken = ["b"])
    (Waiters.fresh_initial "orders")
    [⟨0, .acquire "a" 1000 2000⟩, ⟨0, .acquire "b" 10 2000⟩, ⟨100, .release "a" 30000⟩,
      ⟨0, .acquire "c" 10 2000⟩]
    (by decide)
  rw [always s reach] at passed
  contradiction

end Palisade.Fair
