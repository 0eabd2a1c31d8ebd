import Palisade.Names
import Palisade.Server.Requests

/-! Who may have caused what the service does. Requests arrive with their callers' headers and
are checked; handlers, abandoned requests and the session book go on from there in any order.
Whatever they change in the store goes back to a request whose caller was allowed to make it. -/
namespace Palisade.Accountability
open Redis Single Server Names Transition

/-! What the parts of the service are about. -/

/-- The request that a handler serves, while it asks for a lock or holds one. -/
def lock? : Handler → Option LockRequest
  | .asking request | .binding request _ _ | .registering request _ _ | .undoing request _ _ => some request
  | _ => none

/-- The key that a handler gives back. -/
def key? : Handler → Option String
  | .unlocking key _ | .forcing key => some key
  | _ => none

def strayKey : Stray → String
  | .acquire key _ | .release key _ | .del key => key

def taskLocks : Task → List (String × String)
  | .releasing locks _ => locks
  | _ => []

/-- The locks that are bound to sessions, or being released for one, have such keys. -/
structure Bound (keys : String → Prop) (s : Sessions) : Prop where
  entries : ∀ session entry, s.book.lookup session = some entry → ∀ lock ∈ entry.locks, keys lock.1
  tasks : ∀ task ∈ s.tasks, ∀ lock ∈ taskLocks task, keys lock.1

/-- What is at work in the service is about such locks and such keys only, and nothing else has
changed in the store. -/
structure Within (locks : LockRequest → Prop) (keys : String → Prop) (start : Keyspace) (s : Service) : Prop where
  asked : ∀ handler ∈ s.handlers, ∀ request ∈ lock? handler, locks request
  given : ∀ handler ∈ s.handlers, ∀ key ∈ key? handler, keys key
  strays : ∀ stray ∈ s.strays, keys (strayKey stray)
  sessions : Bound keys s.sessions
  grants : ∀ grant ∈ s.grants, ∃ request, locks request ∧ request.key = grant.key ∧ request.principal = grant.principal
  names : ∀ name, s.db name ≠ start name → ∃ key, keys key ∧ (name = key ∨ name = fenceKeyFor key)

/-- What an action brings into the service. -/
def Admits (locks : LockRequest → Prop) (keys : String → Prop) : ServiceAction → Prop
  | .tryLock request => locks request
  | .unlock key _ | .unlockForce key | .extend key _ _ => keys key
  | _ => True

section
variable {locks : LockRequest → Prop} {keys : String → Prop} {start : Keyspace} {s t : Service} {maxKeys : String → Nat}

/-- A script on the names of a key. -/
theorem Within.changed {db : Keyspace} {key : String} (within : Within locks keys start s) (mine : keys key)
    (others : ∀ name ∉ ({key, fenceKeyFor key} : Set String), db name = s.db name) (name : String)
    (differs : db name ≠ start name) : ∃ key, keys key ∧ (name = key ∨ name = fenceKeyFor key) := by
  by_cases own : name ∈ ({key, fenceKeyFor key} : Set String)
  · exact ⟨key, mine, own⟩
  · exact within.names name (others name own ▸ differs)

theorem acquireOn_others {key token : String} {ttl : Duration} {name : String}
    (other : name ∉ ({key, fenceKeyFor key} : Set String)) : (s.acquireOn key token ttl).2 name = s.db name :=
  mutex_acquire_within (.inl rfl) (.inr rfl) _ name other ..

theorem extendOn_others {key token : String} {ttl : Duration} {name : String}
    (other : name ∉ ({key, fenceKeyFor key} : Set String)) : s.extendOn key token ttl name = s.db name :=
  mutex_extend_within (.inl rfl) (.inr rfl) _ name other ..

theorem unlockWithToken_others {key token : String} {fate : Fate} {name : String}
    (other : name ∉ ({key, fenceKeyFor key} : Set String)) : (s.unlockWithToken key token fate).2 name = s.db name := by
  cases fate with
  | executes => exact mutex_release_within (.inl rfl) name other ..
  | fails => rfl

theorem forceUnlock_others {key : String} {fate : Fate} {name : String}
    (other : name ∉ ({key, fenceKeyFor key} : Set String)) : (s.forceUnlock key fate).2 name = s.db name := by
  have within : (Script.del key).Within {key, fenceKeyFor key} := Script.within_del (.inl rfl)
  have left : ((Script.del key).exec s.now s.db).2 name = s.db name := within name other ..
  cases fate with
  | executes =>
    simp only [Service.forceUnlock]
    split <;> (next ran => rw [ran] at left; exact left)
  | fails => rfl

theorem Bound.lookup {x : Sessions} (bound : Bound keys x) {token : String} {entry : SessionEntry}
    (found : x.book.lookup token = some entry) {changed : SessionEntry}
    (locks : ∀ lock ∈ changed.locks, lock ∈ entry.locks ∨ keys lock.1) :
    ∀ session entry, (x.book.insert token changed).lookup session = some entry → ∀ lock ∈ entry.locks, keys lock.1 := by
  intro session other there lock member
  by_cases same : session = token
  · subst same
    rw [AList.lookup_insert] at there
    cases there
    exact (locks lock member).elim (bound.entries session entry found lock) id
  · rw [AList.lookup_insert_ne same] at there
    exact bound.entries session other there lock member

theorem Bound.erase {x : Sessions} (bound : Bound keys x) (token : String) :
    ∀ session entry, (x.book.erase token).lookup session = some entry → ∀ lock ∈ entry.locks, keys lock.1 := by
  intro session entry there
  by_cases same : session = token
  · subst same
    rw [AList.lookup_erase] at there
    cases there
  · rw [AList.lookup_erase_ne same] at there
    exact bound.entries session entry there

theorem Bound.removed {x : Sessions} (bound : Bound keys x) (token : String) :
    ∀ lock ∈ (x.book.remove token).1, keys lock.1 := by
  intro lock member
  cases found : x.book.lookup token with
  | none => simp [SessionBook.remove, found] at member
  | some entry => exact bound.entries token entry found lock (by simpa [SessionBook.remove, found] using member)

theorem Bound.setTask {x : Sessions} (bound : Bound keys x) {i : Nat} {next : Task}
    (own : ∀ lock ∈ taskLocks next, keys lock.1) :
    ∀ task ∈ (x.setTask i next).tasks, ∀ lock ∈ taskLocks task, keys lock.1 := by
  intro task listed
  rcases List.mem_or_eq_of_mem_set listed with before | new
  · exact bound.tasks task before
  · exact new ▸ own

theorem Bound.act {x y : Sessions} {action : SessionAction} (bound : Bound keys x)
    (binds : ∀ token key lockToken, action = .bind token key lockToken → keys key) (stepped : x.act action = some y) :
    Bound keys y := by
  have task {i : Nat} {task : Task} (here : x.tasks[i]? = some task) : ∀ lock ∈ taskLocks task, keys lock.1 :=
    bound.tasks task (List.mem_of_getElem? here)
  cases action with
  | register token clientId ttl =>
    obtain ⟨_, ⟨⟩⟩ := Option.ite_none_right_eq_some.mp stepped
    refine ⟨fun session entry there => ?_, bound.tasks⟩
    by_cases same : session = token
    · subst same
      rw [SessionBook.register, AList.lookup_insert] at there
      cases there
      exact List.forall_mem_nil _
    · rw [SessionBook.register, AList.lookup_insert_ne same] at there
      exact bound.entries session entry there
  | heartbeat token =>
    cases stepped
    refine ⟨?_, bound.tasks⟩
    dsimp only
    split
    · exact bound.entries
    · next entry found =>
      split
      · exact bound.entries
      · exact bound.lookup found fun lock => .inl
  | bind token key lockToken =>
    cases stepped
    refine ⟨?_, bound.tasks⟩
    dsimp only
    split
    · exact bound.entries
    · next entry found =>
      refine bound.lookup found fun lock member => ?_
      rcases List.mem_append.mp member with before | new
      · exact .inl before
      · cases List.mem_singleton.mp new
        exact .inr (binds token key lockToken rfl)
  | close token =>
    cases stepped
    refine ⟨bound.erase token, fun task listed => ?_⟩
    rcases List.mem_append.mp listed with before | new
    · exact bound.tasks task before
    · cases List.mem_singleton.mp new
      exact bound.removed token
  | snapshot order =>
    obtain ⟨_, ⟨⟩⟩ := Option.ite_none_right_eq_some.mp stepped
    refine ⟨bound.entries, fun task listed => ?_⟩
    rcases List.mem_append.mp listed with before | new
    · exact bound.tasks task before
    · cases List.mem_singleton.mp new
      exact List.forall_mem_nil _
  | lookup i =>
    simp only [Sessions.act] at stepped
    split at stepped <;> cases stepped
    refine ⟨bound.entries, bound.setTask ?_⟩
    split <;> exact List.forall_mem_nil _
  | remove i =>
    simp only [Sessions.act] at stepped
    split at stepped <;> cases stepped
    refine ⟨bound.erase _, bound.setTask ?_⟩
    exact bound.removed _
  | proceed i =>
    simp only [Sessions.act] at stepped
    split at stepped <;> cases stepped
    · next here =>
      refine ⟨bound.entries, bound.setTask fun lock member => ?_⟩
      exact task here lock (List.mem_cons_of_mem _ member)
    · exact ⟨bound.entries, bound.setTask fun lock member => by cases member⟩

/-- A handler that goes on is about the same, or about nothing any more. -/
structure Same (before after : Handler) : Prop where
  lock : lock? after = none ∨ lock? after = lock? before
  key : key? after = none ∨ key? after = key? before

theorem Within.set_asked {i : Nat} {handler next : Handler} (within : Within locks keys start s)
    (here : s.handlers[i]? = some handler) (same : Same handler next) :
    ∀ handler ∈ s.handlers.set i next, ∀ request ∈ lock? handler, locks request := by
  intro other listed request mentioned
  rcases List.mem_or_eq_of_mem_set listed with before | rfl
  · exact within.asked other before request mentioned
  · rcases same.lock with none_ | old
    · rw [none_] at mentioned
      cases mentioned
    · exact within.asked handler (List.mem_of_getElem? here) request (old ▸ mentioned)

theorem Within.set_given {i : Nat} {handler next : Handler} (within : Within locks keys start s)
    (here : s.handlers[i]? = some handler) (same : Same handler next) :
    ∀ handler ∈ s.handlers.set i next, ∀ key ∈ key? handler, keys key := by
  intro other listed key mentioned
  rcases List.mem_or_eq_of_mem_set listed with before | rfl
  · exact within.given other before key mentioned
  · rcases same.key with none_ | old
    · rw [none_] at mentioned
      cases mentioned
    · exact within.given handler (List.mem_of_getElem? here) key (old ▸ mentioned)

/-- A handler that comes in. -/
theorem Within.enter {handler : Handler} (within : Within locks keys start s)
    (own : ∀ request ∈ lock? handler, locks request) (gives : ∀ key ∈ key? handler, keys key) :
    Within locks keys start { s with handlers := s.handlers ++ [handler] } := by
  refine ⟨fun other listed => ?_, fun other listed => ?_, within.strays, within.sessions, within.grants, within.names⟩
  · rcases List.mem_append.mp listed with before | new
    · exact within.asked other before
    · exact List.mem_singleton.mp new ▸ own
  · rcases List.mem_append.mp listed with before | new
    · exact within.given other before
    · exact List.mem_singleton.mp new ▸ gives

theorem Within.after (within : Within locks keys start s) (request : Stray) (mine : keys (strayKey request))
    (fate : Fate) : ∀ stray ∈ Stray.after request s.strays fate, keys (strayKey stray) := by
  cases fate with
  | executes => exact within.strays
  | fails =>
    intro stray listed
    rcases List.mem_cons.mp listed with rfl | before
    · exact mine
    · exact within.strays stray before

theorem Within.eraseIdx (within : Within locks keys start s) (j : Nat) :
    ∀ stray ∈ s.strays.eraseIdx j, keys (strayKey stray) :=
  fun stray left => within.strays stray (List.mem_of_mem_eraseIdx left)

theorem attempted_same (request : LockRequest) (token : String) (result : Except Error HandleShared) :
    Same (.asking request) (Service.attempted request token result) := by
  rcases result with error | shared
  · cases error with
    | held =>
      simp only [Service.attempted]
      split <;> exact ⟨by simp [lock?], .inl rfl⟩
    | _ => exact ⟨.inl rfl, .inl rfl⟩
  · exact ⟨.inr rfl, .inl rfl⟩

theorem forceStep_eq (i : Nat) (key : String) (fate : Fate) : ∃ next, Same (.forcing key) next ∧
    s.forceStep i key fate = { s.set i next with
      db := (s.forceUnlock key fate).2
      strays := Stray.after (.del key) s.strays fate } := by
  rcases ran : s.forceUnlock key fate with ⟨result, db⟩
  cases result with
  | ok | error => exact ⟨_, ⟨.inl rfl, .inl rfl⟩, by rw [Service.forceStep, ran]⟩

theorem removeStep_eq (i : Nat) (key : String) (answer : Answer) : ∃ next, Same (.freeing key answer) next ∧
    s.removeStep i key answer = { s.set i next with registry := (s.registry.removeHolder key).2 } := by
  rcases ran : s.registry.removeHolder key with ⟨owner, registry⟩
  cases owner with
  | some | none => exact ⟨_, ⟨.inl rfl, .inl rfl⟩, by rw [Service.removeStep, ran]⟩

variable (covers : ∀ request, locks request → keys request.key)
include covers

/-- No action leads out of what was let in. -/
theorem Within.act {action : ServiceAction} (within : Within locks keys start s) (admits : Admits locks keys action)
    (stepped : s.act maxKeys action = some t) : Within locks keys start t := by
  have own {i : Nat} {handler : Handler} {request : LockRequest} (here : s.handlers[i]? = some handler)
      (asks : lock? handler = some request) : locks request :=
    within.asked handler (List.mem_of_getElem? here) request asks
  have mine {i : Nat} {handler : Handler} {request : LockRequest} (here : s.handlers[i]? = some handler)
      (asks : lock? handler = some request) : keys request.key := covers request (own here asks)
  cases action with
  | tryLock request =>
    cases stepped
    exact within.enter (fun _ same => Option.some.inj same ▸ admits) (by simp [key?])
  | unlock key token | unlockForce key =>
    cases stepped
    exact within.enter (by simp [lock?]) fun _ same => Option.some.inj same ▸ admits
  | acquire i token =>
    simp only [Service.act] at stepped
    split at stepped <;> [skip; contradiction]
    next request here =>
      obtain ⟨_, ⟨⟩⟩ := Option.ite_none_right_eq_some.mp stepped
      unfold Service.acquireStep
      split
      · have ended (answer : Answer) : Same (.asking request) (.answered answer) := ⟨.inl rfl, .inl rfl⟩
        exact ⟨within.set_asked here (ended _), within.set_given here (ended _), within.strays, within.sessions,
          within.grants, within.names⟩
      · have same := attempted_same request token (s.acquireOn request.key token request.ttl).1
        exact ⟨within.set_asked here same, within.set_given here same, within.strays, within.sessions, within.grants,
          within.changed (mine here rfl) fun _ => acquireOn_others⟩
  | abandon i message =>
    simp only [Service.act, Service.abandonStep] at stepped
    split at stepped <;> [skip; contradiction]
    next request here =>
      split at stepped <;> cases stepped
      have ended (answer : Answer) : Same (.asking request) (.answered answer) := ⟨.inl rfl, .inl rfl⟩
      exact ⟨within.set_asked here (ended _), within.set_given here (ended _),
        List.forall_mem_cons.mpr ⟨mine here rfl, within.strays⟩, within.sessions, within.grants, within.names⟩
  | stray j token =>
    simp only [Service.act] at stepped
    split at stepped <;> [skip; contradiction]
    next key ttl here =>
      obtain ⟨_, ⟨⟩⟩ := Option.ite_none_right_eq_some.mp stepped
      have about : keys key := within.strays _ (List.mem_of_getElem? here)
      exact ⟨within.asked, within.given, within.eraseIdx j, within.sessions, within.grants,
        within.changed about fun _ => acquireOn_others⟩
  | late j =>
    obtain ⟨stray, here, ran⟩ := Option.bind_eq_some_iff.mp stepped
    cases stray with
    | acquire => contradiction
    | release key token =>
      cases ran
      have about : keys key := within.strays _ (List.mem_of_getElem? here)
      have others : ∀ name ∉ ({key, fenceKeyFor key} : Set String),
          (s.unlockWithToken key token .executes).2 name = s.db name :=
        fun _ => unlockWithToken_others
      exact ⟨within.asked, within.given, within.eraseIdx j, within.sessions, within.grants, within.changed about others⟩
    | del key =>
      cases ran
      have about : keys key := within.strays _ (List.mem_of_getElem? here)
      exact ⟨within.asked, within.given, within.eraseIdx j, within.sessions, within.grants,
        within.changed about fun _ => forceUnlock_others⟩
  | giveUp i =>
    simp only [Service.act] at stepped
    split at stepped <;> [skip; contradiction]
    next request here =>
      obtain ⟨_, ⟨⟩⟩ := Option.ite_none_right_eq_some.mp stepped
      have ended (answer : Answer) : Same (.asking request) (.answered answer) := ⟨.inl rfl, .inl rfl⟩
      exact ⟨within.set_asked here (ended _), within.set_given here (ended _), within.strays, within.sessions,
        within.grants, within.names⟩
  | bind i =>
    simp only [Service.act] at stepped
    split at stepped <;> cases stepped
    next request token fence here =>
      unfold Service.bindStep
      split
      · have goes : Same (.binding request token fence) (.registering request token fence) := ⟨.inr rfl, .inl rfl⟩
        exact ⟨within.set_asked here goes, within.set_given here goes, within.strays, within.sessions, within.grants,
          within.names⟩
      · have goes (bound : Bool) (status : Status) : Same (.binding request token fence)
            (if bound then .registering request token fence else .undoing request token status) := by
          cases bound <;> exact ⟨.inr rfl, .inl rfl⟩
        have book : Bound keys ((s.sessions.act (.bind request.session request.key token)).getD s.sessions) := by
          have moved : s.sessions.act (.bind request.session request.key token) =
              some ((s.sessions.act (.bind request.session request.key token)).getD s.sessions) := rfl
          refine within.sessions.act ?_ moved
          rintro _ _ _ ⟨⟩
          exact mine here rfl
        exact ⟨within.set_asked here (goes _ _), within.set_given here (goes _ _), within.strays, book, within.grants,
          within.names⟩
  | register i =>
    simp only [Service.act] at stepped
    split at stepped <;> cases stepped
    next request token fence here =>
      have ended (answer : Answer) : Same (.registering request token fence) (.answered answer) := ⟨.inl rfl, .inl rfl⟩
      have undone (status : Status) : Same (.registering request token fence) (.undoing request token status) :=
        ⟨.inr rfl, .inl rfl⟩
      unfold Service.registerStep
      dsimp only
      split
      · exact ⟨within.set_asked here (ended _), within.set_given here (ended _), within.strays, within.sessions,
          List.forall_mem_cons.mpr ⟨⟨request, own here rfl, rfl, rfl⟩, within.grants⟩, within.names⟩
      · exact ⟨within.set_asked here (undone _), within.set_given here (undone _), within.strays, within.sessions,
          within.grants, within.names⟩
  | undo i fate =>
    simp only [Service.act] at stepped
    split at stepped <;> cases stepped
    next request token status here =>
      have ended (answer : Answer) : Same (.undoing request token status) (.answered answer) := ⟨.inl rfl, .inl rfl⟩
      have about : keys request.key := mine here rfl
      exact ⟨within.set_asked here (ended _), within.set_given here (ended _), within.after (.release _ _) about fate,
        within.sessions, within.grants, within.changed about fun _ => unlockWithToken_others⟩
  | extend key token ttl =>
    obtain ⟨_, ⟨⟩⟩ := Option.ite_none_right_eq_some.mp stepped
    exact ⟨within.asked, within.given, within.strays, within.sessions, within.grants,
      within.changed admits fun _ => extendOn_others⟩
  | run i fate =>
    simp only [Service.act] at stepped
    split at stepped <;> cases stepped
    · next key token here =>
      have about : keys key := within.given _ (List.mem_of_getElem? here) key rfl
      have goes (freed : Prop) [Decidable freed] (answer : Answer) : Same (.unlocking key token)
          (if freed then .freeing key answer else .answered answer) := by
        split <;> exact ⟨.inl rfl, .inl rfl⟩
      exact ⟨within.set_asked here (goes _ _), within.set_given here (goes _ _), within.after (.release _ _) about fate,
        within.sessions, within.grants, within.changed about fun _ => unlockWithToken_others⟩
    · next key here =>
      have about : keys key := within.given _ (List.mem_of_getElem? here) key rfl
      obtain ⟨next, same, ran⟩ := forceStep_eq (s := s) i key fate
      rw [ran]
      exact ⟨within.set_asked here same, within.set_given here same, within.after (.del _) about fate, within.sessions,
        within.grants, within.changed about fun _ => forceUnlock_others⟩
  | remove i =>
    simp only [Service.act] at stepped
    split at stepped <;> cases stepped
    next key answer here =>
      obtain ⟨next, same, ran⟩ := removeStep_eq (s := s) i key answer
      rw [ran]
      exact ⟨within.set_asked here same, within.set_given here same, within.strays, within.sessions, within.grants,
        within.names⟩
  | decrement i =>
    simp only [Service.act] at stepped
    split at stepped <;> cases stepped
    next owner answer here =>
      have ended : Same (.owing owner answer) (.answered answer) := ⟨.inl rfl, .inl rfl⟩
      exact ⟨within.set_asked here ended, within.set_given here ended, within.strays, within.sessions, within.grants,
        within.names⟩
  | session action =>
    simp only [Service.act] at stepped
    split at stepped
    · contradiction
    · contradiction
    · next unbound _ =>
      obtain ⟨book, moved, rfl⟩ := Option.map_eq_some_iff.mp stepped
      have binds (token key lockToken : String) (same : action = .bind token key lockToken) : keys key :=
        absurd same (unbound token key lockToken)
      have bound := within.sessions.act binds moved
      exact ⟨within.asked, within.given, within.strays, bound, within.grants, within.names⟩
  | release task fate =>
    obtain ⟨book, moved, rfl⟩ := Option.map_eq_some_iff.mp stepped
    have bound : Bound keys book := within.sessions.act (by simp) moved
    unfold Service.releaseStep
    split
    · next key token due =>
      have about : keys key := by
        unfold Service.nextRelease at due
        split at due <;> cases due
        next here => exact within.sessions.tasks _ (List.mem_of_getElem? here) _ List.mem_cons_self
      exact ⟨within.asked, within.given, within.after (.release _ _) about fate, bound, within.grants,
        within.changed about fun _ => unlockWithToken_others⟩
    · exact ⟨within.asked, within.given, within.strays, bound, within.grants, within.names⟩

end

/-! Requests, and what goes on between them. -/

/-- A request that arrived, and whether the server took new locks then. -/
structure Asked where
  ready : Bool
  metadata : Metadata
  request : Request
  deriving DecidableEq

/-- The key that a request is going to change, and the permission that it takes. -/
def target : Request → Option (String × (PrincipalConfig → Bool))
  | .tryLock key _ _ | .tryLockFor key _ _ => some (key, PrincipalConfig.canLock)
  | .unlock key _ => some (key, PrincipalConfig.canUnlock)
  | .extend key _ _ => some (key, PrincipalConfig.canExtend)
  | .unlockForce key => some (key, PrincipalConfig.canAdmin)
  | _ => none

/-- The request is about the key and comes from a principal that may make it; for a new lock it
came while the server took any. -/
structure Asked.By (acl : Acl) (a : Asked) (key : String) (principal : Principal) : Prop where
  caller : acl.principal a.metadata = .ok principal
  under : ∃ start ∈ principal.cfg.keyPrefixes, start.toList.isPrefixOf key.toList = true
  permitted : ∃ permission, target a.request = some (key, permission) ∧ permission principal.cfg = true
  ready : a.request.locks = true → a.ready = true

/-- `asked` are the requests so far, and `taken` the locks that handlers have asked Redis for; no
code reads the former. -/
structure Site where
  server : PalisadeService
  asked : List Asked
  taken : List (String × String)

inductive Action where
  /-- A request arrives; a session that it opens has the given token. -/
  | request (metadata : Metadata) (request : Request) (token : String) (fate : Fate)
  | act (action : ServiceAction)
  | setReady (ready : Bool)
  | hub (action : HubAction)
  /-- A stream of a watcher of the principal with this token ends. -/
  | depart (token : String)

structure Moment where
  delay : Nat
  elapsed : Nat
  action : Action

namespace Site

/-- What goes on without a new request: handlers and abandoned requests, sweeps, and the watchdogs
of the locks that handlers took. -/
def Internal (s : Site) : ServiceAction → Prop
  | .tryLock _ | .unlock _ _ | .unlockForce _ => False
  | .session (.register _ _ _) | .session (.heartbeat _) | .session (.close _) => False
  | .extend key token _ => (key, token) ∈ s.taken
  | _ => True

instance (s : Site) (action : ServiceAction) : Decidable (s.Internal action) := by
  unfold Internal
  split <;> infer_instance

def takes (s : Site) : ServiceAction → List (String × String)
  | .acquire i token => match s.server.service.handlers[i]? with
    | some (.asking request) => [(request.key, token)]
    | _ => []
  | _ => []

def wait (s : Site) (delay elapsed : Nat) : Site :=
  { s with server := { s.server with service := s.server.service.wait delay elapsed } }

def act (maxKeys : String → Nat) (s : Site) : Action → Option Site
  | .request metadata request token fate =>
    if token ∈ s.server.service.sessions.issued then none
    else some { s with
      server := (s.server.handle metadata token fate request).2
      asked := ⟨s.server.ready, metadata, request⟩ :: s.asked }
  | .act action =>
    if s.Internal action then (s.server.service.act maxKeys action).map fun service => { s with
      server := { s.server with service }
      taken := s.takes action ++ s.taken }
    else none
  | .setReady ready => some { s with server := { s.server with ready } }
  | .hub action =>
    match action with
    | .subscribe _ => none
    | action => (s.server.hub.act action).map fun hub => { s with server := { s.server with hub } }
  | .depart token => some { s with server := { s.server with
      watchers := Function.update s.server.watchers token (s.server.watchers token - 1) } }

end Site

/-- The server starts with no requests, on any store. -/
def site (acl : Acl) (start : Keyspace) (maxKeys : String → Nat) : Machine Site Moment where
  initial s := s.server.acl = acl ∧ (service maxKeys).initial s.server.service ∧ s.server.service.db = start ∧
    s.asked = [] ∧ s.taken = []
  step s moment := (s.wait moment.delay moment.elapsed).act maxKeys moment.action

/-- One of the requests was for this lock. -/
def Locks (acl : Acl) (asked : List Asked) (request : LockRequest) : Prop :=
  ∃ a ∈ asked, a.request.locks = true ∧ ∃ principal, a.By acl request.key principal ∧ principal.name = request.principal

/-- One of the requests was about this key. -/
def Keys (acl : Acl) (asked : List Asked) (key : String) : Prop := ∃ a ∈ asked, ∃ principal, a.By acl key principal

section
variable {acl : Acl} {start : Keyspace} {maxKeys : String → Nat} {s t : Site}

theorem may_eq_ok {principal : Principal} {key : String} {allowed : Bool} (may : principal.may key allowed = .ok ()) :
    (∃ start ∈ principal.cfg.keyPrefixes, start.toList.isPrefixOf key.toList = true) ∧ allowed = true := by
  unfold Principal.may at may
  split at may <;> [skip; contradiction]
  next under =>
    split at may <;> [skip; contradiction]
    next permitted => exact ⟨List.any_eq_true.mp under, permitted⟩

theorem ok_of_bind {α β : Type} {x : Except Status α} {f : α → Except Status β} {b : β} (returned : (x >>= f) = .ok b) :
    ∃ a, x = .ok a ∧ f a = .ok b := by
  cases x with
  | error => cases returned
  | ok a => exact ⟨a, rfl, returned⟩

theorem handle_acl {server : PalisadeService} {metadata : Metadata} {token : String} {fate : Fate} (request : Request) :
    (server.handle metadata token fate request).2.acl = server.acl := by
  have keeps {α : Type} (checks : Except Status α) (next : α → Except Status Reply × PalisadeService)
      (same : ∀ a, (next a).2.acl = server.acl) : (server.checked checks next).2.acl = server.acl := by
    cases checks with
    | error => rfl
    | ok a => exact same a
  have renews (key lockToken : String) (ttl : Duration) :
      (server.extend metadata key lockToken ttl fate).2.acl = server.acl :=
    keeps _ _ fun _ => rfl
  cases request with
  | registerSession | heartbeat | closeSession => rfl
  | extend key lockToken ttlMs => exact renews key lockToken _
  | _ => exact keeps _ _ fun _ => rfl

/-- The service does one action that these requests account for, or none. -/
def Advances (maxKeys : String → Nat) (acl : Acl) (asked : List Asked) (before after : PalisadeService) : Prop :=
  after.service = before.service ∨
    ∃ action, Admits (Locks acl asked) (Keys acl asked) action ∧ before.service.act maxKeys action = some after.service

section
variable {asked : List Asked} {server : PalisadeService} {metadata : Metadata} {request : Request} {key token : String}

theorem Advances.checked {α : Type} {checks : Except Status α} {next : α → Except Status Reply × PalisadeService}
    (passes : ∀ a, checks = .ok a → Advances maxKeys acl asked server (next a).2) :
    Advances maxKeys acl asked server (server.checked checks next).2 := by
  cases checks with
  | error => exact .inl rfl
  | ok a => exact passes a rfl

/-- A caller that may change the key is one of those who asked for it. -/
theorem keys_of_may {principal : Principal} {permission : PrincipalConfig → Bool}
    (listed : ⟨server.ready, metadata, request⟩ ∈ asked) (about : target request = some (key, permission))
    (other : request.locks = false) (caller : acl.principal metadata = .ok principal)
    (may : principal.may key (permission principal.cfg) = .ok ()) : Keys acl asked key := by
  obtain ⟨under, permitted⟩ := may_eq_ok may
  refine ⟨_, listed, principal, caller, under, ⟨_, about, permitted⟩, ?_⟩
  simp [other]

theorem tryLock_advances {session : String} {ttlMs : Option UInt64} {waits : Bool}
    (listed : ⟨server.ready, metadata, request⟩ ∈ asked) (about : target request = some (key, PrincipalConfig.canLock))
    (asks : request.locks = true) :
    Advances maxKeys server.acl asked server (server.tryLock metadata key session ttlMs waits).2 := by
  apply Advances.checked
  intro lock passed
  obtain ⟨_, ready, passed⟩ := ok_of_bind passed
  obtain ⟨principal, caller, passed⟩ := ok_of_bind passed
  obtain ⟨ttl, _, passed⟩ := ok_of_bind passed
  obtain ⟨_, permitted, ⟨⟩⟩ := ok_of_bind passed
  obtain ⟨_, may, _⟩ := ok_of_bind permitted
  obtain ⟨under, permitted⟩ := may_eq_ok may
  have takes : server.ready = true := by
    by_contra draining
    simp [PalisadeService.checkReady, draining] at ready
  have known : Asked.By server.acl ⟨server.ready, metadata, request⟩ key principal :=
    ⟨caller, under, ⟨_, about, permitted⟩, fun _ => takes⟩
  exact .inr ⟨.tryLock _, ⟨_, listed, asks, principal, known, rfl⟩, rfl⟩

theorem extend_advances {ttl : Duration} {fate : Fate} (listed : ⟨server.ready, metadata, request⟩ ∈ asked)
    (about : target request = some (key, PrincipalConfig.canExtend)) (other : request.locks = false) :
    Advances maxKeys server.acl asked server (server.extend metadata key token ttl fate).2 := by
  apply Advances.checked
  intro _ passed
  obtain ⟨principal, caller, passed⟩ := ok_of_bind passed
  obtain ⟨_, may, _⟩ := ok_of_bind passed
  obtain unchanged | ⟨enough, ran⟩ := PalisadeService.extendWithToken_db server.service key token ttl fate
  · left
    simp only [unchanged]
  · refine .inr ⟨.extend key token ttl, keys_of_may listed about other caller may, ?_⟩
    simp only [ran]
    exact if_pos enough

/-- A request brings in what it is about, once its caller was found to be allowed it. -/
theorem handle_advances (maxKeys : String → Nat) (fate : Fate) (fresh : token ∉ server.service.sessions.issued)
    (listed : ⟨server.ready, metadata, request⟩ ∈ asked) :
    Advances maxKeys server.acl asked server (server.handle metadata token fate request).2 := by
  cases request with
  | tryLock | tryLockFor => exact tryLock_advances listed rfl rfl
  | extend => exact extend_advances listed rfl rfl
  | unlock key lockToken =>
    apply Advances.checked
    intro _ passed
    obtain ⟨principal, caller, may⟩ := ok_of_bind passed
    exact .inr ⟨.unlock key lockToken, keys_of_may listed rfl rfl caller may, rfl⟩
  | unlockForce key =>
    apply Advances.checked
    intro _ passed
    obtain ⟨principal, caller, may⟩ := ok_of_bind passed
    exact .inr ⟨.unlockForce key, keys_of_may listed rfl rfl caller may, rfl⟩
  | registerSession clientId ttlMs =>
    refine .inr ⟨.session (.register token clientId (sessionTtl server.config.maxTtl ttlMs)), trivial, ?_⟩
    simp [Service.act, Sessions.act, fresh, PalisadeService.handle, PalisadeService.registerSession,
      PalisadeService.setSessions]
  | heartbeat sessionToken => exact .inr ⟨.session (.heartbeat sessionToken), trivial, rfl⟩
  | closeSession sessionToken => exact .inr ⟨.session (.close sessionToken), trivial, rfl⟩
  | watch | describeKey | listLocks => exact Advances.checked fun _ _ => .inl rfl

end

/-- What is asked later lets in no less. -/
theorem Within.mono {locks locks' : LockRequest → Prop} {keys keys' : String → Prop} {service : Service}
    (within : Within locks keys start service) (more : ∀ request, locks request → locks' request)
    (wider : ∀ key, keys key → keys' key) : Within locks' keys' start service where
  asked handler listed request same := more request (within.asked handler listed request same)
  given handler listed key same := wider key (within.given handler listed key same)
  strays stray listed := wider _ (within.strays stray listed)
  sessions := ⟨fun session entry found lock member => wider _ (within.sessions.entries session entry found lock member),
    fun task listed lock member => wider _ (within.sessions.tasks task listed lock member)⟩
  grants grant listed := (within.grants grant listed).imp fun _ ⟨asked, same⟩ => ⟨more _ asked, same⟩
  names name differs := (within.names name differs).imp fun _ ⟨mine, own⟩ => ⟨wider _ mine, own⟩

theorem Within.wait {locks : LockRequest → Prop} {keys : String → Prop} {service : Service}
    (within : Within locks keys start service) (delay elapsed : Nat) :
    Within locks keys start (service.wait delay elapsed) where
  asked := within.asked
  given := within.given
  strays := within.strays
  sessions := ⟨within.sessions.entries, within.sessions.tasks⟩
  grants := within.grants
  names := within.names

theorem keys_of_locks {asked : List Asked} (request : LockRequest) (locks : Locks acl asked request) :
    Keys acl asked request.key := by
  obtain ⟨a, listed, _, principal, known, _⟩ := locks
  exact ⟨a, listed, principal, known⟩

structure Inv (acl : Acl) (start : Keyspace) (s : Site) : Prop where
  access : s.server.acl = acl
  within : Within (Locks acl s.asked) (Keys acl s.asked) start s.server.service
  taken : ∀ lock ∈ s.taken, Keys acl s.asked lock.1

theorem Inv.wait (inv : Inv acl start s) (delay elapsed : Nat) : Inv acl start (s.wait delay elapsed) :=
  ⟨inv.access, inv.within.wait delay elapsed, inv.taken⟩

theorem Inv.request (inv : Inv acl start s) (metadata : Metadata) (request : Request) {token : String} (fate : Fate)
    (fresh : token ∉ s.server.service.sessions.issued) : Inv acl start { s with
      server := (s.server.handle metadata token fate request).2
      asked := ⟨s.server.ready, metadata, request⟩ :: s.asked } := by
  have wider (key : String) : Keys acl s.asked key → Keys acl (⟨s.server.ready, metadata, request⟩ :: s.asked) key :=
    fun ⟨a, listed, known⟩ => ⟨a, List.mem_cons_of_mem _ listed, known⟩
  have more (lock : LockRequest) : Locks acl s.asked lock →
      Locks acl (⟨s.server.ready, metadata, request⟩ :: s.asked) lock :=
    fun ⟨a, listed, known⟩ => ⟨a, List.mem_cons_of_mem _ listed, known⟩
  have within := inv.within.mono more wider
  refine ⟨(handle_acl request).trans inv.access, ?_, fun lock listed => wider _ (inv.taken lock listed)⟩
  have advances : Advances (fun _ => 0) s.server.acl (⟨s.server.ready, metadata, request⟩ :: s.asked) s.server
      (s.server.handle metadata token fate request).2 := handle_advances _ fate fresh List.mem_cons_self
  rw [inv.access] at advances
  obtain same | ⟨action, admits, ran⟩ := advances
  · rw [same]
    exact within
  · exact within.act keys_of_locks admits ran

theorem Inv.act {action : ServiceAction} {service : Service} (inv : Inv acl start s) (internal : s.Internal action)
    (ran : s.server.service.act maxKeys action = some service) :
    Inv acl start { s with server := { s.server with service }, taken := s.takes action ++ s.taken } := by
  have admits : Admits (Locks acl s.asked) (Keys acl s.asked) action := by
    cases action with
    | tryLock | unlock | unlockForce => exact internal.elim
    | extend key token => exact inv.taken (key, token) internal
    | _ => trivial
  refine ⟨inv.access, inv.within.act keys_of_locks admits ran, fun lock listed => ?_⟩
  rcases List.mem_append.mp listed with new | before
  · unfold Site.takes at new
    split at new <;> [skip; cases new]
    split at new <;> [skip; cases new]
    next request here =>
      cases List.mem_singleton.mp new
      exact keys_of_locks request (inv.within.asked _ (List.mem_of_getElem? here) request rfl)
  · exact inv.taken lock before

theorem inv_reachable (reach : (site acl start maxKeys).Reachable s) : Inv acl start s := by
  refine reach.invariant ?_ ?_
  · rintro s ⟨access, ⟨_, ⟨book, _, tasks, _⟩, handlers, strays, _, grants, _⟩, rfl, asked, taken⟩
    refine ⟨access, ⟨?_, ?_, ?_, ⟨?_, ?_⟩, ?_, ?_⟩, ?_⟩
    all_goals simp_all
  · rintro s ⟨delay, elapsed, action⟩ t before stepped
    have inv := before.wait delay elapsed
    have stepped : (s.wait delay elapsed).act maxKeys action = some t := stepped
    generalize s.wait delay elapsed = s at inv stepped
    cases action with
    | request metadata request token fate =>
      obtain ⟨fresh, ⟨⟩⟩ := Option.ite_none_left_eq_some.mp stepped
      exact inv.request metadata request fate fresh
    | act action =>
      obtain ⟨internal, stepped⟩ := Option.ite_none_right_eq_some.mp stepped
      obtain ⟨service, ran, rfl⟩ := Option.map_eq_some_iff.mp stepped
      exact inv.act internal ran
    | setReady | depart =>
      cases stepped
      exact ⟨inv.access, inv.within, inv.taken⟩
    | hub action =>
      simp only [Site.act] at stepped
      split at stepped <;> [contradiction; skip]
      obtain ⟨hub, _, rfl⟩ := Option.map_eq_some_iff.mp stepped
      exact ⟨inv.access, inv.within, inv.taken⟩

/-- Whatever the service changes in the store goes back to a request for that key, or for the key
whose counter it is, from a principal that was allowed it; so does every grant, to a request of its
own principal from when the server took new locks. -/
theorem changes_accounted (reach : (site acl start maxKeys).Reachable s) :
    (∀ name, s.server.service.db name ≠ start name → ∃ a ∈ s.asked, ∃ key principal, a.By acl key principal ∧
      (name = key ∨ name = fenceKeyFor key)) ∧
    ∀ grant ∈ s.server.service.grants, ∃ a ∈ s.asked, a.request.locks = true ∧ a.ready = true ∧
      ∃ principal, a.By acl grant.key principal ∧ principal.name = grant.principal := by
  obtain ⟨_, within, _⟩ := inv_reachable reach
  constructor
  · intro name differs
    obtain ⟨key, ⟨a, listed, principal, known⟩, own⟩ := within.names name differs
    exact ⟨a, listed, key, principal, known, own⟩
  · intro grant listed
    obtain ⟨request, ⟨a, asked, locks, principal, known, named⟩, key, same⟩ := within.grants grant listed
    exact ⟨a, asked, locks, known.ready locks, principal, key ▸ known, named.trans same⟩

end

/-- The principal of the list locks a key of its own. -/
def building : List Moment :=
  [⟨0, 0, .request bearerRequest (.tryLock "ci/build" "" none) "n" .executes⟩, ⟨5, 5, .act (.acquire 0 "t")⟩,
    ⟨1, 1, .act (.bind 0)⟩, ⟨0, 0, .act (.register 0)⟩]

theorem building_accounted : ∃ s : Site, s.server.service.db "ci/build" ≠ none ∧ s.server.service.grants.length = 1 ∧
    (∃ a ∈ s.asked, ∃ key principal, a.By (PalisadeService.listed true).acl key principal ∧
      ("ci/build" = key ∨ "ci/build" = fenceKeyFor key)) ∧
    ∀ grant ∈ s.server.service.grants, ∃ a ∈ s.asked, a.request.locks = true ∧ a.ready = true ∧
      ∃ principal, a.By (PalisadeService.listed true).acl grant.key principal ∧ principal.name = grant.principal := by
  have initial : (site (PalisadeService.listed true).acl (fun _ => none) fun _ => 50).initial ⟨.listed true, [], []⟩ :=
    ⟨rfl, Service.fresh_initial _, rfl, rfl, rfl⟩
  obtain ⟨s, reach, taken, granted⟩ := (site _ _ _).exists_reachableWhen (fun _ _ => True)
    (fun s => s.server.service.db "ci/build" ≠ none ∧ s.server.service.grants.length = 1) initial building
    (by decide +kernel)
  obtain ⟨names, grants⟩ := changes_accounted reach
  exact ⟨s, taken, granted, names "ci/build" taken, grants⟩

end Palisade.Accountability
