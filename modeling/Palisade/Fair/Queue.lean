import Palisade.Transition
import Palisade.Fair.Line

/-! Runs of the fair scripts on one key, with the arguments their headers document,
and what the queue keeps through them: every waiter stands in it once, the holder
not at all, and nobody who beats is lost. -/
namespace Palisade.Fair
open Redis Single Transition

inductive Call where
  | acquire (token : String) (ttl hbTtl : Nat)
  | release (token : String) (ttl : Nat)
  deriving DecidableEq

def Call.script (key : String) : Call → Script (Int × Int)
  | .acquire token ttl hbTtl => Fair.acquire key (queueKeyFor key) (fenceKeyFor key)
      (hbKeyFor key token) token ttl hbTtl (some (hbPrefixFor key))
  | .release token ttl => do
    return (← Fair.release key (some (queueKeyFor key)) token (.int ttl) (some (hbPrefixFor key)), 0)

/-- The leases of a call are positive, as the callers check. -/
def Call.valid : Call → Bool
  | .acquire _ ttl hbTtl => decide (0 < ttl ∧ 0 < hbTtl)
  | .release _ ttl => decide (0 < ttl)

def Call.apply (line : Line) (now : Nat) : Call → Int × Line
  | .acquire token ttl hbTtl => line.acquire now token ttl hbTtl
  | .release token ttl => line.release now token ttl

structure Timed where
  delay : Nat
  call : Call
  deriving DecidableEq

/-- The store follows the line under every call. -/
theorem Sound.exec_call (sound : Sound key db) {call : Call} (valid : call.valid = true) (now : Nat) :
    ∃ fence after, (call.script key).exec now db =
        (.ok ((call.apply (view key db now) now).1, fence), after) ∧
      Sound key after ∧ view key after now = (call.apply (view key db now) now).2 := by
  cases call with
  | acquire token ttl hbTtl =>
    obtain ⟨positive, beating⟩ := of_decide_eq_true valid
    exact sound.exec_acquire positive beating token now
  | release token ttl =>
    obtain ⟨after, ran, whole⟩ := sound.exec_release (of_decide_eq_true valid) token now
    exact ⟨0, after, Script.exec_bind_pure ran, whole⟩

/-! What time alone does to the line. -/

section
variable {now later : Nat} (after : now ≤ later)
include after

theorem holder_later {key : String} {db : Keyspace} {held : String × Nat} (seen : (view key db later).holder = some held) :
    (view key db now).holder = some held := by
  rcases Keyspace.lookup_later db key after with same | gone
  · simpa only [view, same] using seen
  · simp [view, gone] at seen

theorem items_later (key : String) (db : Keyspace) : (view key db later).items = (view key db now).items ∨
    (view key db later).items = [] := by
  rcases Keyspace.lookup_later db (queueKeyFor key) after with same | gone
  · exact .inl (by simp only [Line.items, view, same])
  · exact .inr (by simp [Line.items, view, gone])

theorem dead_later {key : String} {db : Keyspace} {token : String} (beating : (view key db later).dead token = false) :
    (view key db now).dead token = false := by
  rcases Keyspace.lookup_later db (hbKeyFor key token) after with same | gone
  · simpa only [Line.dead, view, same] using beating
  · simp [Line.dead, view, gone] at beating

end

namespace Line

/-- Everything a call can do to the line. -/
inductive Effect (line : Line) (now : Nat) : Call → Int → Line → Prop where
  | refreshed : line.holder = some (token, stop) →
      Effect line now (.acquire token ttl hbTtl) 2 (line.grant token (now + ttl))
  | queued : line.holder = some (owner, stop) → owner ≠ token →
      Effect line now (.acquire token ttl hbTtl) 0 (line.join now token ttl hbTtl)
  | granted : line.holder = none → line.alive = [] →
      Effect line now (.acquire token ttl hbTtl) 1 ((line.trim []).grant token (now + ttl))
  | promoted : line.holder = none → line.alive.getLast? = some token →
      Effect line now (.acquire token ttl hbTtl) 1
        ((line.trim (line.alive.erase token)).grant token (now + ttl))
  | blocked : line.holder = none → line.alive.getLast? = some oldest → oldest ≠ token →
      Effect line now (.acquire token ttl hbTtl) 0 ((line.trim line.alive).join now token ttl hbTtl)
  | freed : line.holder = some (token, stop) → line.alive = [] →
      Effect line now (.release token ttl) 1 { line.trim [] with holder := none }
  | handed : line.holder = some (token, stop) → line.alive.getLast? = some oldest →
      Effect line now (.release token ttl) 1
        ((line.trim line.alive.dropLast).grant oldest (now + ttl))
  | refused : (∀ stop, line.holder ≠ some (token, stop)) →
      Effect line now (.release token ttl) (-1) line

theorem effect (line : Line) (now : Nat) (call : Call) :
    line.Effect now call (call.apply line now).1 (call.apply line now).2 := by
  cases call with
  | acquire token ttl hbTtl =>
    simp only [Call.apply, acquire]
    split
    · split
      · subst_vars
        exact .refreshed ‹_›
      · exact .queued ‹_› ‹_›
    · split
      · exact .granted ‹_› (List.getLast?_eq_none_iff.mp ‹_›)
      · split
        · subst_vars
          exact .promoted ‹_› ‹_›
        · exact .blocked ‹_› ‹_› ‹_›
  | release token ttl =>
    simp only [Call.apply, release]
    split
    · exact .refused (by simp [*])
    · split
      · subst_vars
        split
        · exact .freed ‹_› (List.getLast?_eq_none_iff.mp ‹_›)
        · exact .handed ‹_› ‹_›
      · refine .refused fun stop held => ?_
        simp_all

variable {line : Line} {token : String}

theorem items_trim {left : List String} (whole : line.items = [] → left = []) :
    (line.trim left).items = left := by
  unfold trim items at *
  split
  · simp_all
  · cases queue : line.queue with
    | none => simp_all
    | some stored => simp

theorem alive_sublist : line.alive.Sublist line.items := (List.rdropWhile_prefix _ _).sublist

theorem alive_nil (empty : line.items = []) : line.alive = [] := by simp [alive, empty]

@[simp] theorem items_trim_alive : (line.trim line.alive).items = line.alive :=
  items_trim alive_nil

theorem items_trim_sublist {left : List String} (part : left.Sublist line.alive) :
    (line.trim left).items = left := by
  apply items_trim
  intro empty
  rw [alive_nil empty] at part
  exact List.eq_nil_of_sublist_nil part

theorem mem_alive (member : token ∈ line.items) (beating : line.dead token = false) :
    token ∈ line.alive := by
  rw [← List.rdropWhile_append_rtakeWhile (p := line.dead) (l := line.items)] at member
  rcases List.mem_append.mp member with kept | dropped
  · exact kept
  · have dead := List.mem_rtakeWhile_imp dropped
    simp [dead] at beating

theorem join_items {now ttl hbTtl : Nat} : (line.join now token ttl hbTtl).items =
    if token ∈ line.items then line.items else token :: line.items := by
  simp [join, items]

/-- Every waiter stands in the queue once and the holder does not. -/
structure Proper (line : Line) : Prop where
  distinct : line.items.Nodup
  served : ∀ token stop, line.holder = some (token, stop) → token ∉ line.items

/-- Who leaves the queue got the lock or was dead. -/
def Retains (before after : Line) : Prop :=
  ∀ token ∈ before.items, token ∈ after.items ∨ after.holder.map Prod.fst = some token ∨
    before.dead token = true

theorem mem_join {now ttl hbTtl : Nat} {other : String} :
    other ∈ (line.join now token ttl hbTtl).items ↔ other = token ∨ other ∈ line.items := by
  rw [join_items]
  split
  · constructor
    · exact .inr
    · rintro (rfl | member)
      · assumption
      · exact member
  · exact List.mem_cons

theorem Proper.join {now ttl hbTtl : Nat} (distinct : line.items.Nodup)
    (served : ∀ owner stop, line.holder = some (owner, stop) → owner ≠ token ∧ owner ∉ line.items) :
    (line.join now token ttl hbTtl).Proper where
  distinct := by
    rw [join_items]
    split
    · exact distinct
    · exact List.nodup_cons.mpr ⟨‹_›, distinct⟩
  served owner stop held member := by
    obtain ⟨other, absent⟩ := served owner stop held
    rcases mem_join.mp member with same | inside
    · exact other same
    · exact absent inside

theorem Proper.grant {stop : Nat} (distinct : line.items.Nodup) (absent : token ∉ line.items) :
    (line.grant token stop).Proper where
  distinct := distinct
  served owner stop held := by
    cases held
    exact absent

theorem Effect.proper {after : Line} (effect : line.Effect now call status after)
    (proper : line.Proper) : after.Proper := by
  have alive : line.alive.Nodup := proper.distinct.sublist alive_sublist
  cases effect with
  | refreshed held => exact .grant proper.distinct (proper.served _ _ held)
  | queued held other =>
    apply Proper.join proper.distinct
    intro owner stop holds
    cases held.symm.trans holds
    exact ⟨other, proper.served _ _ held⟩
  | granted free dead =>
    have empty : (line.trim []).items = [] := items_trim fun _ => rfl
    exact .grant (empty ▸ List.nodup_nil) (by simp [empty])
  | promoted free last =>
    apply Proper.grant
    · rw [items_trim_sublist List.erase_sublist]
      exact alive.erase _
    · rw [items_trim_sublist List.erase_sublist]
      exact alive.not_mem_erase
  | blocked free last other =>
    apply Proper.join
    · rw [items_trim_alive]
      exact alive
    · intro owner stop holds
      cases free.symm.trans holds
  | freed held dead =>
    have empty : (line.trim []).items = [] := items_trim fun _ => rfl
    exact ⟨empty ▸ List.nodup_nil, by simp⟩
  | handed held last =>
    rw [← List.dropLast_append_getLast? _ last] at alive
    obtain ⟨rest, _, apart⟩ := List.nodup_append.mp alive
    apply Proper.grant
    · rw [items_trim_sublist (List.dropLast_sublist _)]
      exact rest
    · rw [items_trim_sublist (List.dropLast_sublist _)]
      exact fun member => apart _ member _ (List.mem_singleton_self _) rfl
  | refused absent => exact proper

theorem Effect.retains {after : Line} (effect : line.Effect now call status after) :
    line.Retains after := by
  intro token member
  cases dying : line.dead token with
  | true => exact .inr (.inr rfl)
  | false =>
    have kept := mem_alive member dying
    cases effect with
    | refreshed held => exact .inl member
    | queued held other => exact .inl (mem_join.mpr (.inr member))
    | granted free dead =>
      rw [dead] at kept
      contradiction
    | @promoted winner _ _ free last =>
      by_cases same : token = winner
      · subst same
        exact .inr (.inl rfl)
      · left
        change token ∈ (line.trim _).items
        rw [items_trim_sublist List.erase_sublist]
        exact (List.mem_erase_of_ne same).mpr kept
    | blocked free last other =>
      left
      apply mem_join.mpr
      rw [items_trim_alive]
      exact .inr kept
    | freed held dead =>
      rw [dead] at kept
      contradiction
    | @handed _ _ oldest _ held last =>
      rw [← List.dropLast_append_getLast? _ last] at kept
      rcases List.mem_append.mp kept with inside | same
      · left
        change token ∈ (line.trim _).items
        rw [items_trim_sublist (List.dropLast_sublist _)]
        exact inside
      · cases List.mem_singleton.mp same
        exact .inr (.inl rfl)
    | refused absent => exact .inl member

end Line

/-! Runs. The state also keeps the order in which tokens enqueued and every live
waiter that was ever passed over; no script reads either. -/

/-- The tokens that enqueued before a winner; the list is newest first. -/
def ahead (winner : String) (arrivals : List String) : List String :=
  if winner ∈ arrivals then (arrivals.dropWhile fun token => decide (token ≠ winner)).tail
  else arrivals

/-- The token that a call made the holder. -/
def Call.winner : Call → Int → Line → Option String
  | .acquire token _ _, 1, _ => some token
  | .release _ _, 1, after => after.holder.map Prod.fst
  | _, _, _ => none

/-- A call that has to wait enqueues its token unless it finds it in what is left of
the queue. A waiter that never stopped beating keeps the place it first took. -/
def Call.arrive (line : Line) (arrivals : List String) : Call → Int → List String
  | .acquire token _ _, 0 =>
    if token ∈ (if line.holder.isSome then line.items else line.alive) ∨
        (token ∈ arrivals ∧ line.dead token = false) then arrivals
    else token :: arrivals.erase token
  | _, _ => arrivals

structure Waiters where
  now : Nat
  db : Keyspace
  arrivals : List String
  overtaken : List String

namespace Waiters

/-- A call was answered at `now`. -/
def record (key : String) (s : Waiters) (now : Nat) (db : Keyspace) (call : Call) (status : Int) :
    Waiters :=
  let line := view key s.db now
  match call.winner status (view key db now) with
  | some winner => ⟨now, db, s.arrivals.erase winner,
      ((ahead winner s.arrivals).filter fun token => !line.dead token) ++ s.overtaken⟩
  | none => ⟨now, db, call.arrive line s.arrivals status, s.overtaken⟩

def exec (key : String) (s : Waiters) (timed : Timed) : Waiters :=
  match (timed.call.script key).exec (s.now + timed.delay) s.db with
  | (.error _, db) => ⟨s.now + timed.delay, db, s.arrivals, s.overtaken⟩
  | (.ok (status, _), db) => s.record key (s.now + timed.delay) db timed.call status

end Waiters

/-- The keys of the lock start out absent; the rest of the store is arbitrary. -/
def fair (key : String) : Machine Waiters Timed where
  initial s := s.db key = none ∧ s.db (queueKeyFor key) = none ∧ s.db (fenceKeyFor key) = none ∧
    (∀ token, s.db (hbKeyFor key token) = none) ∧ s.arrivals = [] ∧ s.overtaken = []
  step s timed := if timed.call.valid then some (s.exec key timed) else none

namespace Waiters

section
variable {s : Waiters} {now : Nat} {db : Keyspace} {call : Call} {status : Int}

@[simp] theorem record_now : (s.record key now db call status).now = now := by
  unfold record
  dsimp only
  split <;> rfl

@[simp] theorem record_db : (s.record key now db call status).db = db := by
  unfold record
  dsimp only
  split <;> rfl

end

/-- A step is an effect on the line at the instant it happens. -/
theorem step_effect {s t : Waiters} {timed : Timed} (sound : Sound key s.db)
    (stepped : (fair key).step s timed = some t) : ∃ status db, Sound key db ∧
      t = s.record key (s.now + timed.delay) db timed.call status ∧
      (view key s.db (s.now + timed.delay)).Effect (s.now + timed.delay) timed.call status
        (view key db (s.now + timed.delay)) := by
  simp only [fair] at stepped
  split at stepped <;> cases stepped
  obtain ⟨fence, after, ran, whole, seen⟩ := sound.exec_call ‹_› (s.now + timed.delay)
  refine ⟨_, after, whole, by simp only [exec, ran]; rfl, ?_⟩
  rw [seen]
  exact Line.effect _ _ _

structure Inv (key : String) (s : Waiters) : Prop where
  sound : Sound key s.db
  proper : (view key s.db s.now).Proper

theorem Inv.later {s : Waiters} (inv : s.Inv key) {instant : Nat} (later : s.now ≤ instant) :
    (view key s.db instant).Proper := by
  rcases items_later later key s.db with same | empty
  · refine ⟨same ▸ inv.proper.distinct, ?_⟩
    intro token stop held
    rw [same]
    exact inv.proper.served token stop (holder_later later held)
  · exact ⟨empty ▸ List.nodup_nil, by simp [empty]⟩

theorem Inv.step {s t : Waiters} {timed : Timed} (inv : s.Inv key)
    (stepped : (fair key).step s timed = some t) : t.Inv key := by
  obtain ⟨status, db, sound, rfl, effect⟩ := step_effect inv.sound stepped
  constructor
  · simpa using sound
  · simpa using effect.proper (inv.later (Nat.le_add_right ..))

theorem inv_reachable {s : Waiters} (reach : (fair key).Reachable s) : s.Inv key := by
  refine reach.invariant ?_ fun s timed t inv stepped => inv.step stepped
  rintro s ⟨lock, queue, counter, beats, _, _⟩
  refine ⟨.absent lock queue counter beats, ?_⟩
  have empty : (view key s.db s.now).items = [] := by simp [Line.items, view, Keyspace.lookup, queue]
  exact ⟨by simp [empty], by simp [empty]⟩

def fresh : Waiters := ⟨0, fun _ => none, [], []⟩

theorem fresh_initial (key : String) : (fair key).initial .fresh :=
  ⟨rfl, rfl, rfl, fun _ => rfl, rfl, rfl⟩

end Waiters

/-- In every reachable state and at every later instant each waiter stands in the
queue once and the holder does not; with time the queue only goes as a whole; and a
script takes a waiter out only if it got the lock or was found dead. -/
theorem queue_integrity {s : Waiters} (reach : (fair key).Reachable s) :
    (∀ instant, s.now ≤ instant → (view key s.db instant).Proper ∧
      ((view key s.db instant).items = (view key s.db s.now).items ∨
        s.db.lookup instant (queueKeyFor key) = none)) ∧
    ∀ timed t, (fair key).step s timed = some t →
      (view key s.db t.now).Retains (view key t.db t.now) := by
  have inv := Waiters.inv_reachable reach
  constructor
  · intro instant later
    refine ⟨inv.later later, ?_⟩
    rcases Keyspace.lookup_later s.db (queueKeyFor key) later with same | gone
    · exact .inl (by simp only [Line.items, view, same])
    · exact .inr gone
  · intro timed t stepped
    obtain ⟨status, db, sound, rfl, effect⟩ := Waiters.step_effect inv.sound stepped
    simpa using effect.retains

/-- One holder, two waiters. -/
theorem queue_integrity_two_waiting : ∃ s : Waiters, (view "orders" s.db s.now).Proper ∧
    (view "orders" s.db s.now).items = ["c", "b"] ∧
    (view "orders" s.db s.now).holder = some ("a", 1000) := by
  obtain ⟨s, reach, facts⟩ := Machine.exists_reachableWhen (fun _ _ => True)
    (fun s : Waiters => (view "orders" s.db s.now).items = ["c", "b"] ∧
      (view "orders" s.db s.now).holder = some ("a", 1000))
    (Waiters.fresh_initial "orders")
    [⟨0, .acquire "a" 1000 2000⟩, ⟨10, .acquire "b" 1000 2000⟩, ⟨10, .acquire "c" 1000 2000⟩,
      ⟨10, .acquire "b" 1000 2000⟩]
    (by decide)
  exact ⟨s, ((queue_integrity reach).1 s.now le_rfl).1, facts⟩

end Palisade.Fair
