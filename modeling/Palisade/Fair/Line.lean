import Palisade.Fair.Scripts

/-! The waiting line in the store: the holder, the queue and the heartbeats, as a
script run at one instant sees them. Both scripts are functions of the line; the
store follows them. -/
namespace Palisade.Fair
open Redis Single

/-- What is visible at one instant, with its expiry. The queue is newest first. -/
@[ext] structure Line where
  holder : Option (String × Nat)
  queue : Option (List String × Nat)
  beats : String → Option Nat

namespace Line

def items (line : Line) : List String := (line.queue.map Prod.fst).getD []

def dead (line : Line) (token : String) : Bool := (line.beats token).isNone

/-- The queue without the dead entries at its oldest end. -/
def alive (line : Line) : List String := line.items.rdropWhile line.dead

/-- The line with its queue cut down. -/
def trim (line : Line) (left : List String) : Line :=
  { line with queue := if left = [] then none else line.queue.map fun (_, stop) => (left, stop) }

def grant (line : Line) (token : String) (stop : Nat) : Line :=
  { line with holder := some (token, stop) }

/-- A waiter joins the queue unless it is in it, and beats. -/
def join (line : Line) (now : Nat) (token : String) (ttl hbTtl : Nat) : Line :=
  { line with
    queue := some (if token ∈ line.items then line.items else token :: line.items, now + ttl * 10)
    beats := Function.update line.beats token (some (now + hbTtl)) }

def acquire (line : Line) (now : Nat) (token : String) (ttl hbTtl : Nat) : Int × Line :=
  match line.holder with
  | some (owner, _) =>
    if owner = token then (2, line.grant token (now + ttl))
    else (0, line.join now token ttl hbTtl)
  | none =>
    match line.alive.getLast? with
    | none => (1, (line.trim []).grant token (now + ttl))
    | some oldest =>
      if oldest = token then (1, (line.trim (line.alive.erase token)).grant token (now + ttl))
      else (0, (line.trim line.alive).join now token ttl hbTtl)

def release (line : Line) (now : Nat) (token : String) (ttl : Nat) : Int × Line :=
  match line.holder with
  | none => (-1, line)
  | some (owner, _) =>
    if owner = token then
      match line.alive.getLast? with
      | none => (1, { line.trim [] with holder := none })
      | some oldest => (1, (line.trim line.alive.dropLast).grant oldest (now + ttl))
    else (-1, line)

end Line

/-- What the scripts ever store under the keys of a lock. -/
structure Sound (key : String) (db : Keyspace) : Prop where
  lock : ∀ entry, db key = some entry → ∃ token stop, entry = ⟨.string (.raw token), some stop⟩
  queue : ∀ entry, db (queueKeyFor key) = some entry →
    ∃ items stop, entry = ⟨.list items, some stop⟩ ∧ items ≠ []
  beat : ∀ token entry, db (hbKeyFor key token) = some entry → entry.expireAt ≠ none
  counter : Counts key db

theorem Sound.absent {key : String} {db : Keyspace} (lock : db key = none) (queue : db (queueKeyFor key) = none)
    (counter : db (fenceKeyFor key) = none) (beats : ∀ token, db (hbKeyFor key token) = none) : Sound key db where
  lock := by simp [lock]
  queue := by simp [queue]
  beat := by simp [beats]
  counter := by simp [Counts, counter]

def view (key : String) (db : Keyspace) (now : Nat) : Line where
  holder := match db.lookup now key with
    | some ⟨.string (.raw token), some stop⟩ => some (token, stop)
    | _ => none
  queue := match db.lookup now (queueKeyFor key) with
    | some ⟨.list items, some stop⟩ => some (items, stop)
    | _ => none
  beats token := (db.lookup now (hbKeyFor key token)).bind Entry.expireAt

section
variable {key token : String} {db after : Keyspace} {now ttl stop : Nat} {items : List String}

/-- Entries away from the lock key. -/
theorem view_lock (others : ∀ other ≠ key, after other = db other) : view key after now =
    { view key db now with holder := (view key after now).holder } := by
  ext1
  · rfl
  · simp only [view, Keyspace.lookup_congr (others _ (queueKeyFor_ne key))]
  · funext waiter
    simp only [view, Keyspace.lookup_congr (others _ (hbKeyFor_ne key waiter))]

theorem view_grant (future : 0 < ttl) (token : String) :
    view key (db.put key ⟨.string (.raw token), some (now + ttl)⟩) now =
      (view key db now).grant token (now + ttl) := by
  rw [view_lock fun other distinct => Keyspace.put_of_ne distinct]
  have seen : now < now + ttl := by omega
  simp only [view, Keyspace.lookup_put_live seen, Line.grant]

theorem view_free : view key (db.erase key) now = { view key db now with holder := none } := by
  rw [view_lock fun other distinct => Keyspace.erase_of_ne distinct]
  simp [view]

/-- Entries away from the queue. -/
theorem view_queue (others : ∀ other ≠ queueKeyFor key, after other = db other) :
    view key after now = { view key db now with queue := (view key after now).queue } := by
  ext1
  · simp only [view, Keyspace.lookup_congr (others _ (queueKeyFor_ne key).symm)]
  · rfl
  · funext waiter
    simp only [view, Keyspace.lookup_congr (others _ (hbKeyFor_ne_queueKeyFor key waiter))]

theorem view_trim (found : db.lookup now (queueKeyFor key) = some ⟨.list items, some stop⟩)
    (left : List String) :
    view key (db.trim (queueKeyFor key) left (some stop)) now = (view key db now).trim left := by
  have others (other : String) (distinct : other ≠ queueKeyFor key) :
      db.trim (queueKeyFor key) left (some stop) other = db other := Keyspace.trim_of_ne distinct
  rw [view_queue others]
  have seen := Keyspace.lookup_trim found left
  by_cases empty : left = []
  · subst empty
    simp only [view, seen, Line.trim, if_true]
  · rw [if_neg empty] at seen
    simp only [view, seen, Line.trim, found, empty, if_false, Option.map_some]

theorem view_counter {entry : Entry} :
    view key (db.put (fenceKeyFor key) entry) now = view key db now := by
  ext1
  · simp only [view, Keyspace.lookup_congr (Keyspace.put_of_ne (fenceKeyFor_ne key).symm)]
  · simp only [view,
      Keyspace.lookup_congr (Keyspace.put_of_ne (fenceKeyFor_ne_queueKeyFor key).symm)]
  · funext waiter
    simp only [view,
      Keyspace.lookup_congr (Keyspace.put_of_ne (hbKeyFor_ne_fenceKeyFor key waiter))]

theorem view_beat (future : 0 < ttl) (token : String) {payload : Payload} :
    view key (db.put (hbKeyFor key token) ⟨.string payload, some (now + ttl)⟩) now =
      { view key db now with
        beats := Function.update (view key db now).beats token (some (now + ttl)) } := by
  ext1
  · simp only [view, Keyspace.lookup_congr (Keyspace.put_of_ne (hbKeyFor_ne key token).symm)]
  · simp only [view,
      Keyspace.lookup_congr (Keyspace.put_of_ne (hbKeyFor_ne_queueKeyFor key token).symm)]
  · funext waiter
    by_cases same : waiter = token
    · subst same
      have seen : now < now + ttl := by omega
      simp only [view, Keyspace.lookup_put_live seen, Option.bind_some, Function.update_self]
    · have distinct : hbKeyFor key waiter ≠ hbKeyFor key token := mt hbKeyFor_injective same
      simp only [view, Keyspace.lookup_congr (Keyspace.put_of_ne distinct),
        Function.update_of_ne same]

end

namespace Sound
variable {key token : String} {db : Keyspace} {now ttl : Nat} (sound : Sound key db)
include sound

theorem lookup_lock (now : Nat) :
    (db.lookup now key = none ∧ (view key db now).holder = none) ∨
      ∃ token stop, db.lookup now key = some ⟨.string (.raw token), some stop⟩ ∧
        (view key db now).holder = some (token, stop) := by
  cases found : db.lookup now key with
  | none => exact .inl ⟨rfl, by simp [view, found]⟩
  | some entry =>
    obtain ⟨token, stop, rfl⟩ := sound.lock entry (Keyspace.lookup_eq_some.mp found).1
    exact .inr ⟨token, stop, rfl, by simp [view, found]⟩

theorem lookup_queue (now : Nat) :
    (db.lookup now (queueKeyFor key) = none ∧ (view key db now).queue = none) ∨
      ∃ items stop, db.lookup now (queueKeyFor key) = some ⟨.list items, some stop⟩ ∧ items ≠ [] ∧
        (view key db now).queue = some (items, stop) := by
  cases found : db.lookup now (queueKeyFor key) with
  | none => exact .inl ⟨rfl, by simp [view, found]⟩
  | some entry =>
    obtain ⟨items, stop, rfl, populated⟩ := sound.queue entry (Keyspace.lookup_eq_some.mp found).1
    exact .inr ⟨items, stop, rfl, populated, by simp [view, found]⟩

theorem dead (now : Nat) : Dead key now db (view key db now).dead := by
  intro token
  simp only [Line.dead, view]
  cases found : db.lookup now (hbKeyFor key token) with
  | none => rfl
  | some entry =>
    have expiry := sound.beat token entry (Keyspace.lookup_eq_some.mp found).1
    obtain ⟨stop, present⟩ := Option.ne_none_iff_exists'.mp expiry
    simp [present]

/-- The commands only touch the lock key. -/
theorem put_lock (token : String) (stop : Nat) :
    Sound key (db.put key ⟨.string (.raw token), some stop⟩) where
  lock entry stored := by
    rw [Keyspace.put_self] at stored
    exact ⟨token, stop, (Option.some.inj stored).symm⟩
  queue entry stored := sound.queue entry (by rwa [Keyspace.put_of_ne (queueKeyFor_ne key)] at stored)
  beat waiter entry stored :=
    sound.beat waiter entry (by rwa [Keyspace.put_of_ne (hbKeyFor_ne key waiter)] at stored)
  counter := sound.counter.congr fun _ distinct => Keyspace.put_of_ne distinct

theorem erase_lock : Sound key (db.erase key) where
  lock entry stored := by simp at stored
  queue entry stored :=
    sound.queue entry (by rwa [Keyspace.erase_of_ne (queueKeyFor_ne key)] at stored)
  beat waiter entry stored :=
    sound.beat waiter entry (by rwa [Keyspace.erase_of_ne (hbKeyFor_ne key waiter)] at stored)
  counter := sound.counter.congr fun _ distinct => Keyspace.erase_of_ne distinct

/-- The commands only touch the queue. -/
theorem replace_queue {after : Keyspace} (others : ∀ other ≠ queueKeyFor key, after other = db other)
    (queue : ∀ entry, after (queueKeyFor key) = some entry →
      ∃ items stop, entry = ⟨.list items, some stop⟩ ∧ items ≠ []) : Sound key after where
  lock entry stored := sound.lock entry (by rwa [others _ (queueKeyFor_ne key).symm] at stored)
  queue := queue
  beat waiter entry stored :=
    sound.beat waiter entry (by rwa [others _ (hbKeyFor_ne_queueKeyFor key waiter)] at stored)
  counter entry stored :=
    sound.counter entry (by rwa [others _ (fenceKeyFor_ne_queueKeyFor key)] at stored)

theorem trim (left : List String) (stop : Nat) :
    Sound key (db.trim (queueKeyFor key) left (some stop)) := by
  apply sound.replace_queue fun other distinct => Keyspace.trim_of_ne distinct
  intro entry stored
  unfold Keyspace.trim at stored
  split at stored
  · simp at stored
  · rw [Keyspace.put_self] at stored
    exact ⟨left, stop, (Option.some.inj stored).symm, ‹_›⟩

theorem put_beat (token : String) (payload : Payload) (stop : Nat) :
    Sound key (db.put (hbKeyFor key token) ⟨.string payload, some stop⟩) where
  lock entry stored :=
    sound.lock entry (by rwa [Keyspace.put_of_ne (hbKeyFor_ne key token).symm] at stored)
  queue entry stored :=
    sound.queue entry (by rwa [Keyspace.put_of_ne (hbKeyFor_ne_queueKeyFor key token).symm] at stored)
  beat waiter entry stored := by
    by_cases same : hbKeyFor key waiter = hbKeyFor key token
    · rw [same, Keyspace.put_self] at stored
      cases stored
      simp
    · exact sound.beat waiter entry (by rwa [Keyspace.put_of_ne same] at stored)
  counter entry stored :=
    sound.counter entry (by rwa [Keyspace.put_of_ne (hbKeyFor_ne_fenceKeyFor key token).symm] at stored)

/-- A grant counts a fence, which changes nothing in the line. -/
theorem exec_fence (status : Int) (now : Nat) : ∃ fence after,
    (do return (status, ← Script.incr (fenceKeyFor key)) : Script (Int × Int)).exec now db =
      (.ok (status, fence), after) ∧ Sound key after ∧ view key after now = view key db now := by
  have counted (fence : Int) (stop : Option Nat) :
      Sound key (db.put (fenceKeyFor key) ⟨.string (.int fence), stop⟩) := by
    constructor
    · intro entry stored
      exact sound.lock entry (by rwa [Keyspace.put_of_ne (fenceKeyFor_ne key).symm] at stored)
    · intro entry stored
      exact sound.queue entry
        (by rwa [Keyspace.put_of_ne (fenceKeyFor_ne_queueKeyFor key).symm] at stored)
    · intro waiter entry stored
      exact sound.beat waiter entry
        (by rwa [Keyspace.put_of_ne (hbKeyFor_ne_fenceKeyFor key waiter)] at stored)
    · intro entry stored
      rw [Keyspace.put_self] at stored
      exact ⟨fence, stop, (Option.some.inj stored).symm⟩
  cases found : db.lookup now (fenceKeyFor key) with
  | none =>
    exact ⟨1, _, by simp only [Script.exec_bind, Script.exec_incr, found, Script.exec_pure],
      counted 1 none, view_counter⟩
  | some entry =>
    obtain ⟨fence, stop, rfl⟩ := sound.counter entry (Keyspace.lookup_eq_some.mp found).1
    exact ⟨fence + 1, _, by simp only [Script.exec_bind, Script.exec_incr, found, Script.exec_pure],
      counted (fence + 1) stop, view_counter⟩

theorem joined {after : Keyspace} {hbTtl : Nat} (positive : 0 < ttl) (beating : 0 < hbTtl)
    (others : ∀ other ≠ queueKeyFor key, after other =
      db.put (hbKeyFor key token) ⟨.string (.int 1), some (now + hbTtl)⟩ other)
    (queue : after (queueKeyFor key) = Keyspace.refreshed now (.list (if token ∈ (view key db now).items
      then (view key db now).items else token :: (view key db now).items)) (ttl * 10)) :
    Sound key after ∧ view key after now = (view key db now).join now token ttl hbTtl := by
  have stored := Keyspace.refreshed_eq_some.mpr ⟨by omega, rfl⟩ |>.symm.trans queue.symm |>.symm
  constructor
  · apply (sound.put_beat token (.int 1) (now + hbTtl)).replace_queue others
    intro entry found
    rw [stored] at found
    refine ⟨_, _, (Option.some.inj found).symm, ?_⟩
    split
    · exact List.ne_nil_of_mem ‹_›
    · simp
  · rw [view_queue others, view_beat beating]
    have seen : after.lookup now (queueKeyFor key) = _ :=
      Keyspace.lookup_eq_some.mpr ⟨stored, decide_eq_false (by omega)⟩
    simp only [view, seen, Line.join]

/-- The heartbeat and the expiry of the queue are set once the caller is in it. -/
theorem exec_beat {hbTtl : Nat} (positive : 0 < ttl) (beating : 0 < hbTtl) (token : String) (now : Nat)
    (placed : Keyspace) {expiry : Option Nat} (others : ∀ other ≠ queueKeyFor key, placed other = db other)
    (found : placed.lookup now (queueKeyFor key) = some ⟨.list (if token ∈ (view key db now).items
      then (view key db now).items else token :: (view key db now).items), expiry⟩) : ∃ after,
    (do Script.setPx (hbKeyFor key token) (.int 1) (.int hbTtl)
        let _ ← Script.pexpire (queueKeyFor key) (ttl * 10)
        return (0, 0) : Script (Int × Int)).exec now placed = (.ok (0, 0), after) ∧
      Sound key after ∧ view key after now = (view key db now).join now token ttl hbTtl := by
  have beat := hbKeyFor_ne_queueKeyFor key token
  have kept : (placed.put (hbKeyFor key token) ⟨.string (.int 1), some (now + hbTtl)⟩).lookup now
      (queueKeyFor key) = _ := (Keyspace.lookup_congr (Keyspace.put_of_ne beat.symm)).trans found
  refine ⟨(placed.put (hbKeyFor key token) ⟨.string (.int 1), some (now + hbTtl)⟩).refresh now
    (queueKeyFor key) _ (ttl * 10), ?_, sound.joined positive beating ?_ Keyspace.refresh_self⟩
  · simp only [Script.exec_bind, Script.exec_setPx _ beating, Script.exec_pexpire, kept,
      Script.exec_pure]
  · intro other distinct
    rw [Keyspace.refresh_of_ne distinct]
    by_cases same : other = hbKeyFor key token
    · rw [same, Keyspace.put_self, Keyspace.put_self]
    · rw [Keyspace.put_of_ne same, Keyspace.put_of_ne same, others other distinct]

theorem exec_enqueue {hbTtl : Nat} (positive : 0 < ttl) (beating : 0 < hbTtl) (token : String)
    (now : Nat) : ∃ after,
    (enqueue (queueKeyFor key) (hbKeyFor key token) token ttl hbTtl).exec now db = (.ok (0, 0), after) ∧
      Sound key after ∧ view key after now = (view key db now).join now token ttl hbTtl := by
  rcases sound.lookup_queue now with ⟨missing, queue⟩ | ⟨items, stop, found, _, queue⟩
  · have empty : (view key db now).items = [] := by simp [Line.items, queue]
    obtain ⟨after, ran, whole⟩ := sound.exec_beat positive beating token now
      (db.put (queueKeyFor key) ⟨.list [token], none⟩)
      (fun other distinct => Keyspace.put_of_ne distinct) (by rw [empty]; exact Keyspace.lookup_put_self)
    refine ⟨after, ?_, whole⟩
    simpa [enqueue, Script.lpos, Script.lpush, Script.exec_list_missing missing,
      Script.exec_store_missing _ missing] using ran
  · have listed : (view key db now).items = items := by simp [Line.items, queue]
    have live := (Keyspace.lookup_eq_some.mp found).2
    by_cases member : token ∈ items
    · obtain ⟨after, ran, whole⟩ := sound.exec_beat positive beating token now db
        (fun _ _ => rfl) (by rw [listed, if_pos member]; exact found)
      refine ⟨after, ?_, whole⟩
      have present : items.findIdx? (· == token) ≠ none := by
        simpa [List.findIdx?_eq_none_iff] using member
      simpa [enqueue, Script.lpos, Script.exec_list found, present] using ran
    · obtain ⟨after, ran, whole⟩ := sound.exec_beat positive beating token now
        (db.put (queueKeyFor key) ⟨.list (token :: items), some stop⟩)
        (fun other distinct => Keyspace.put_of_ne distinct)
        (by rw [listed, if_neg member]; exact Keyspace.lookup_put_live (by simpa using live))
      refine ⟨after, ?_, whole⟩
      have absent : items.findIdx? (· == token) = none := by
        rw [List.findIdx?_eq_none_iff]
        rintro other inside
        simpa using fun same : other = token => member (same ▸ inside)
      simpa [enqueue, Script.lpos, Script.lpush, Script.exec_list found, absent,
        Script.exec_store _ found] using ran

/-- A free lock goes to the caller. -/
theorem exec_grant (positive : 0 < ttl) (token : String) (now : Nat) : ∃ fence after,
    (do Script.setPx key (.raw token) (.int ttl)
        return (1, ← Script.incr (fenceKeyFor key)) : Script (Int × Int)).exec now db =
      (.ok (1, fence), after) ∧ Sound key after ∧
        view key after now = (view key db now).grant token (now + ttl) := by
  obtain ⟨fence, after, ran, whole, same⟩ := (sound.put_lock token (now + ttl)).exec_fence 1 now
  refine ⟨fence, after, ?_, whole, same.trans (view_grant positive token)⟩
  rw [Script.exec_bind, Script.exec_setPx _ positive]
  exact ran

/-- `fair_acquire.lua` with its documented arguments, run on the store, is the line's `acquire`. -/
def AcquireFollows (key : String) (db : Keyspace) (ttl hbTtl : Nat) (token : String) (now : Nat) : Prop :=
  ∃ fence after, (acquire key (queueKeyFor key) (fenceKeyFor key) (hbKeyFor key token) token ttl hbTtl
      (some (hbPrefixFor key))).exec now db =
        (.ok (((view key db now).acquire now token ttl hbTtl).1, fence), after) ∧
      Sound key after ∧ view key after now = ((view key db now).acquire now token ttl hbTtl).2

/-- The lock is free and nobody waits. -/
theorem acquire_unqueued {hbTtl : Nat} (positive : 0 < ttl) (free : db.lookup now key = none)
    (holder : (view key db now).holder = none) (missing : db.lookup now (queueKeyFor key) = none)
    (queue : (view key db now).queue = none) : AcquireFollows key db ttl hbTtl token now := by
  have absent := Script.exec_get_none free
  have empty : (view key db now).alive = [] := by simp [Line.alive, Line.items, queue]
  have same : (view key db now).trim [] = view key db now := by
    ext1
    · rfl
    · exact queue.symm
    · rfl
  obtain ⟨fence, after, ran, whole⟩ := sound.exec_grant positive token now
  refine ⟨fence, after, ?_, ?_⟩
  · simpa [acquire, absent, free, Script.llen, Script.lrangeLast, discardDead,
      Script.exec_list_missing missing, Line.acquire, holder, empty] using ran
  · simpa [Line.acquire, holder, empty, same] using whole

/-- The lock is free and there is a queue: dead entries go before the oldest one decides. -/
theorem acquire_queued {hbTtl stop : Nat} {items : List String} (positive : 0 < ttl) (beating : 0 < hbTtl)
    (free : db.lookup now key = none) (holder : (view key db now).holder = none)
    (found : db.lookup now (queueKeyFor key) = some ⟨.list items, some stop⟩) (populated : items ≠ [])
    (queue : (view key db now).queue = some (items, stop)) :
    AcquireFollows key db ttl hbTtl token now := by
  have absent := Script.exec_get_none free
  have alive : (view key db now).alive = items.rdropWhile (view key db now).dead := by
    simp [Line.alive, Line.items, queue]
  have discarded := exec_discardDead (sound.dead now) found populated
  rw [← alive] at discarded
  have trimmed := sound.trim (view key db now).alive stop
  have left := Keyspace.lookup_trim found (view key db now).alive
  cases last : (view key db now).alive.getLast? with
  | none =>
    have empty := List.getLast?_eq_none_iff.mp last
    rw [if_pos empty] at left
    obtain ⟨fence, after, ran, whole, seen⟩ := trimmed.exec_grant positive token now
    refine ⟨fence, after, ?_, whole, ?_⟩
    · simpa [acquire, absent, free, Script.llen, Script.exec_list found, discarded,
        Script.lrangeLast, Script.exec_list_missing left, Line.acquire, holder, last] using ran
    · rw [seen, view_trim found, empty]
      simp [Line.acquire, holder, last]
  | some oldest =>
    have waiting : (view key db now).alive ≠ [] := by
      rintro empty
      simp [empty] at last
    rw [if_neg waiting] at left
    by_cases mine : oldest = token
    · subst mine
      have member := List.mem_of_getLast? last
      have removed := Script.exec_lrem left member
      rw [Keyspace.trim_trim] at removed
      obtain ⟨fence, after, ran, whole, seen⟩ :=
        (sound.trim ((view key db now).alive.erase oldest) stop).exec_grant positive oldest now
      refine ⟨fence, after, ?_, whole, ?_⟩
      · simpa [acquire, absent, free, Script.llen, Script.exec_list found, discarded,
          Script.lrangeLast, Script.exec_list left, removed, Line.acquire, holder, last] using ran
      · rw [seen, view_trim found]
        simp [Line.acquire, holder, last]
    · obtain ⟨after, ran, whole, seen⟩ := trimmed.exec_enqueue positive beating token now
      refine ⟨0, after, ?_, whole, ?_⟩
      · simpa [acquire, absent, free, Script.llen, Script.exec_list found, discarded,
          Script.lrangeLast, Script.exec_list left, last, mine, Line.acquire, holder] using ran
      · rw [seen, view_trim found]
        simp [Line.acquire, holder, last, mine]

/-- The lock is held: its holder refreshes the lease, anyone else queues. -/
theorem acquire_held {hbTtl stop : Nat} {owner : String} (positive : 0 < ttl) (beating : 0 < hbTtl)
    (held : db.lookup now key = some ⟨.string (.raw owner), some stop⟩)
    (holder : (view key db now).holder = some (owner, stop)) :
    AcquireFollows key db ttl hbTtl token now := by
  have stored := Script.exec_get_string held
  by_cases mine : owner = token
  · subst mine
    obtain ⟨fence, after, ran, whole, same⟩ := (sound.put_lock owner (now + ttl)).exec_fence 2 now
    have refreshed : db.refresh now key (.string (.raw owner)) ttl =
        db.put key ⟨.string (.raw owner), some (now + ttl)⟩ := if_neg (Nat.ne_of_gt positive)
    refine ⟨fence, after, ?_, whole, ?_⟩
    · simpa [acquire, stored, Script.exec_pexpire, held, refreshed, Line.acquire, holder] using ran
    · rw [same, view_grant positive]
      simp [Line.acquire, holder]
  · obtain ⟨after, ran, whole, seen⟩ := sound.exec_enqueue positive beating token now
    refine ⟨0, after, ?_, whole, ?_⟩
    · simpa [acquire, stored, held, mine, Line.acquire, holder] using ran
    · rw [seen]
      simp [Line.acquire, holder, mine]

theorem exec_acquire {hbTtl : Nat} (positive : 0 < ttl) (beating : 0 < hbTtl) (token : String)
    (now : Nat) : AcquireFollows key db ttl hbTtl token now := by
  rcases sound.lookup_lock now with ⟨free, holder⟩ | ⟨owner, stop, held, holder⟩
  · rcases sound.lookup_queue now with ⟨missing, queue⟩ | ⟨items, stop, found, populated, queue⟩
    · exact sound.acquire_unqueued positive free holder missing queue
    · exact sound.acquire_queued positive beating free holder found populated queue
  · exact sound.acquire_held positive beating held holder

/-- `fair_release.lua` with its documented arguments is the line's `release`. -/
def ReleaseFollows (key : String) (db : Keyspace) (ttl : Nat) (token : String) (now : Nat) : Prop :=
  ∃ after, (release key (some (queueKeyFor key)) token (.int ttl) (some (hbPrefixFor key))).exec now db =
      (.ok ((view key db now).release now token ttl).1, after) ∧
    Sound key after ∧ view key after now = ((view key db now).release now token ttl).2

section
variable {stop : Nat} (held : db.lookup now key = some ⟨.string (.raw token), some stop⟩)
  (holder : (view key db now).holder = some (token, stop))
include held holder

/-- The holder releases and nobody waits. -/
theorem release_unqueued (missing : db.lookup now (queueKeyFor key) = none)
    (queue : (view key db now).queue = none) : ReleaseFollows key db ttl token now := by
  have stored := Script.exec_get_string held
  have erased : (Script.del key).exec now db = (.ok 1, db.erase key) := by
    simp [Script.exec_del, held]
  have empty : (view key db now).alive = [] := by simp [Line.alive, Line.items, queue]
  rw [← Keyspace.lookup_congr (Keyspace.erase_of_ne (queueKeyFor_ne key))] at missing
  refine ⟨db.erase key, ?_, sound.erase_lock, ?_⟩
  · simp [release, stored, erased, Script.required, Script.llen,
      Script.exec_list_missing missing, handOff, Line.release, holder, empty]
  · rw [view_free]
    simp [Line.release, holder, empty, Line.trim, queue]

/-- The holder releases and there is a queue: the oldest waiter that beats gets the lock. -/
theorem release_queued {items : List String} {expiry : Nat} (positive : 0 < ttl)
    (found : db.lookup now (queueKeyFor key) = some ⟨.list items, some expiry⟩) (populated : items ≠ [])
    (queue : (view key db now).queue = some (items, expiry)) : ReleaseFollows key db ttl token now := by
  have stored := Script.exec_get_string held
  have erased : (Script.del key).exec now db = (.ok 1, db.erase key) := by
    simp [Script.exec_del, held]
  have alive : (view key db now).alive = items.rdropWhile (view key db now).dead := by
    simp [Line.alive, Line.items, queue]
  rw [← Keyspace.lookup_congr (Keyspace.erase_of_ne (queueKeyFor_ne key))] at found
  have dead : Dead key now (db.erase key) (view key db now).dead := by
    intro waiter
    rw [Keyspace.lookup_congr (Keyspace.erase_of_ne (hbKeyFor_ne key waiter))]
    exact sound.dead now waiter
  have popped := exec_handOff dead found populated positive
  rw [← alive] at popped
  have ran : (release key (some (queueKeyFor key)) token (.int ttl)
      (some (hbPrefixFor key))).exec now db = (.ok 1, handed key now ttl (db.erase key) (some expiry)
        (view key db now).alive) := by
    simp [release, stored, erased, Script.required, Script.llen, Script.exec_list found, popped]
  refine ⟨handed key now ttl (db.erase key) (some expiry) (view key db now).alive, ?_, ?_⟩
  · rw [ran]
    simp only [Line.release, holder, if_true]
    split <;> rfl
  · unfold handed
    cases last : (view key db now).alive.getLast? with
    | none =>
      refine ⟨sound.erase_lock.trim [] expiry, ?_⟩
      rw [view_trim found, view_free]
      simp [Line.release, holder, last, Line.trim]
    | some oldest =>
      refine ⟨(sound.erase_lock.trim _ expiry).put_lock oldest (now + ttl), ?_⟩
      rw [view_grant positive, view_trim found, view_free]
      simp [Line.release, holder, last, Line.trim, Line.grant]

end

theorem exec_release (positive : 0 < ttl) (token : String) (now : Nat) :
    ReleaseFollows key db ttl token now := by
  rcases sound.lookup_lock now with ⟨free, holder⟩ | ⟨owner, stop, held, holder⟩
  · refine ⟨db, ?_, sound, by simp [Line.release, holder]⟩
    simp [release, Script.exec_get_none free, Line.release, holder]
  · by_cases mine : owner = token
    · subst mine
      rcases sound.lookup_queue now with ⟨missing, queue⟩ | ⟨items, expiry, found, populated, queue⟩
      · exact sound.release_unqueued held holder missing queue
      · exact sound.release_queued held holder positive found populated queue
    · refine ⟨db, ?_, sound, by simp [Line.release, holder, mine]⟩
      simp [release, Script.exec_get_string held, mine, Line.release, holder]

end Sound

end Palisade.Fair
