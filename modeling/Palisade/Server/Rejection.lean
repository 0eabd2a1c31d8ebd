import Palisade.Server.Requests
import Palisade.Server.Closing

/-! One request for a lock from its arrival to its answer, alone at the service. Time passes
between its steps. The tokens it mints are stored nowhere yet, an acquire script that fails
has no effect, and the release that undoes a grant runs. -/
namespace Palisade.Server
open Redis Single Http Transition

namespace Service

/-- A step of handler `i`, and what is assumed of it. -/
def Own (s : Service) (i : Nat) : ServiceAction → Prop
  | .acquire j token => j = i ∧ ∀ request, s.handlers[i]? = some (.asking request) →
      (∀ stop, s.db request.key ≠ some ⟨.string (.raw token), stop⟩) ∧
        ∀ error, (s.acquireOn request.key token request.ttl).1 = .error error →
          (s.acquireOn request.key token request.ttl).2 = s.db
  | .abandon j _ | .giveUp j | .bind j | .register j => j = i
  | .undo j fate => j = i ∧ fate = .executes
  | _ => False

/-- A run in which only handler `i` acts. -/
inductive Alone (maxKeys : String → Nat) (i : Nat) : Service → List ServiceMoment → Service → Prop where
  | done (s : Service) : Alone maxKeys i s [] s
  | step {s t u : Service} {moment : ServiceMoment} {rest : List ServiceMoment}
      (own : (s.wait moment.delay moment.elapsed).Own i moment.action)
      (stepped : (service maxKeys).step s moment = some t) (left : Alone maxKeys i t rest u) :
      Alone maxKeys i s (moment :: rest) u

/-- The locks, the registry and the session book are as before. -/
structure Unmarked (before after : Service) : Prop where
  locks : ∀ name instant, after.now ≤ instant → holder name after.db instant = holder name before.db instant
  registry : after.registry = before.registry
  book : after.sessions.book = before.sessions.book

theorem Unmarked.refl (s : Service) : Unmarked s s := ⟨fun _ _ _ => rfl, rfl, rfl⟩

/-- An acquire script of the schedule runs while the key is free. -/
def meetsFree (key : String) (db : Keyspace) (now : Nat) : List ServiceMoment → Prop
  | [] => False
  | moment :: rest =>
    (∃ i token, moment.action = .acquire i token) ∧ db.lookup (now + moment.delay) key = none ∨
      meetsFree key db (now + moment.delay) rest

/-- The request names a session that the book has. -/
def Known (s : Service) (request : LockRequest) : Prop :=
  request.session ≠ "" ∧ (s.sessions.book.lookup request.session).isSome

/-- The request gets its lock and has it bound to its session before the registry finds that
its principal has as many keys as it may have. -/
structure Overdrawn (maxKeys : String → Nat) (s : Service) (request : LockRequest) (schedule : List ServiceMoment) :
    Prop where
  valid : LockOptions.validate ⟨request.ttl⟩ = .ok ()
  lasting : request.ttl.asMillisU64 ≠ 0
  free : meetsFree request.key s.db s.now schedule
  session : s.Known request
  untracked : s.registry.holders request.key = none
  full : s.registry.Full request.principal (maxKeys request.principal)

/-- Everything a handler does on its own. -/
inductive OwnMoves (maxKeys : String → Nat) (i : Nat) (s : Service) : Handler → ServiceAction → Service → Prop where
  | acquire {request : LockRequest} {token : String}
      (unused : ∀ stop, s.db request.key ≠ some ⟨.string (.raw token), stop⟩)
      (effectless : ∀ error, (s.acquireOn request.key token request.ttl).1 = .error error →
        (s.acquireOn request.key token request.ttl).2 = s.db) :
      OwnMoves maxKeys i s (.asking request) (.acquire i token) (s.acquireStep i request token)
  | abandon {request : LockRequest} {message : Option String} {t : Service}
      (gaveUp : s.abandonStep i request message = some t) :
      OwnMoves maxKeys i s (.asking request) (.abandon i message) t
  | giveUp {request : LockRequest} : OwnMoves maxKeys i s (.asking request) (.giveUp i)
      (s.set i (.answered (.lock (.ok (.timedOut request.key)))))
  | bind {request : LockRequest} {token : String} {fence : FencingToken} :
      OwnMoves maxKeys i s (.binding request token fence) (.bind i) (s.bindStep i request token fence)
  | register {request : LockRequest} {token : String} {fence : FencingToken} :
      OwnMoves maxKeys i s (.registering request token fence) (.register i)
        (s.registerStep maxKeys i request token fence)
  | undo {request : LockRequest} {token : String} {status : Status} (strays : List Stray) :
      OwnMoves maxKeys i s (.undoing request token status) (.undo i .executes)
        { s.unlocked request.key token .executes with
          handlers := s.handlers.set i (.answered (.lock (.error status)))
          strays }

variable {maxKeys : String → Nat} {i : Nat} {s t u : Service} {handler : Handler} {action : ServiceAction}
  {schedule : List ServiceMoment} {status : Status}

theorem own_moves (own : s.Own i action) (stepped : s.act maxKeys action = some t)
    (here : s.handlers[i]? = some handler) : s.OwnMoves maxKeys i handler action t := by
  cases action with
  | acquire j token =>
    obtain ⟨rfl, assumed⟩ := own
    simp only [act, here] at stepped
    split at stepped
    · next asking =>
      cases asking
      obtain ⟨_, ⟨⟩⟩ := Option.ite_none_right_eq_some.mp stepped
      obtain ⟨unused, effectless⟩ := assumed _ here
      exact .acquire unused effectless
    · contradiction
  | abandon j message =>
    cases own
    simp only [act, here] at stepped
    split at stepped
    · next asking =>
      cases asking
      exact .abandon stepped
    · contradiction
  | giveUp j =>
    cases own
    simp only [act, here] at stepped
    split at stepped
    · next asking =>
      cases asking
      obtain ⟨_, ⟨⟩⟩ := Option.ite_none_right_eq_some.mp stepped
      exact .giveUp
    · contradiction
  | bind j =>
    cases own
    simp only [act, here] at stepped
    split at stepped
    · next binding =>
      cases binding
      cases stepped
      exact .bind
    · contradiction
  | register j =>
    cases own
    simp only [act, here] at stepped
    split at stepped
    · next registering =>
      cases registering
      cases stepped
      exact .register
    · contradiction
  | undo j fate =>
    obtain ⟨rfl, rfl⟩ := own
    simp only [act, here] at stepped
    split at stepped
    · next undoing =>
      cases undoing
      cases stepped
      exact .undo _
    · contradiction
  | tryLock | stray | late | unlock | unlockForce | extend | run | remove | decrement | session | release =>
    exact own.elim

theorem get_set (here : s.handlers[i]? = some handler) (next : Handler) :
    (s.handlers.set i next)[i]? = some next :=
  List.getElem?_set_self (List.getElem?_eq_some_iff.mp here).1

/-- The lock under `token` is gone and nothing else has changed, bookkeeping included. -/
structure Undone (key token : String) (before after : Service) : Prop where
  later : before.now ≤ after.now
  registry : after.registry = before.registry
  locks : ∀ name other instant, after.now ≤ instant → (holder name after.db instant = some other ↔
    holder name before.db instant = some other ∧ (name, other) ≠ (key, token))

/-- The clock, the store and the registry are as before. -/
structure Same (before after : Service) : Prop where
  now : after.now = before.now
  db : after.db = before.db
  registry : after.registry = before.registry

theorem Undone.of_same {key token : String} {delay elapsed : Nat} (undone : Undone key token t u)
    (same : Same (s.wait delay elapsed) t) : Undone key token s u where
  later := by
    refine Nat.le_trans ?_ undone.later
    rw [same.now]
    exact Nat.le_add_right _ _
  registry := undone.registry.trans same.registry
  locks := by
    have db : t.db = s.db := same.db
    rw [← db]
    exact undone.locks

/-- The registry turns a lock down only where the key is new to it and the principal has
as many keys as it may have. -/
theorem registerStep_spec (maxKeys : String → Nat) (request : LockRequest) (token : String) (fence : FencingToken)
    (here : s.handlers[i]? = some handler) :
    (s.registerStep maxKeys i request token fence).handlers[i]? = some (granted request token fence) ∨
      (s.registry.holders request.key = none ∧ s.registry.Full request.principal (maxKeys request.principal)) ∧
        (∃ status, (s.registerStep maxKeys i request token fence).handlers[i]? =
          some (.undoing request token status)) ∧
        Same s (s.registerStep maxKeys i request token fence) ∧
        (s.registerStep maxKeys i request token fence).sessions = s.sessions := by
  have acquired := s.registry.acquired request.key request.principal (maxKeys request.principal)
  simp only [registerStep]
  generalize s.registry.tryAcquire request.key request.principal (maxKeys request.principal) = outcome
    at acquired ⊢
  obtain ⟨admitted, registry⟩ := outcome
  cases acquired with
  | tracked found => exact .inl (get_set here _)
  | refused free full => exact .inr ⟨⟨free, full⟩, ⟨_, get_set here _⟩, ⟨rfl, rfl, rfl⟩, rfl⟩
  | inserted free room => exact .inl (get_set here _)

/-- A lock that is bound to a session leaves its trace in the book. -/
theorem bindStep_spec (request : LockRequest) (token : String) (fence : FencingToken)
    (here : s.handlers[i]? = some handler) : Same s (s.bindStep i request token fence) ∧
      (s.Known request → (s.bindStep i request token fence).handlers[i]? = some (.registering request token fence) ∧
        (s.bindStep i request token fence).sessions.book ≠ s.sessions.book) ∧
      (¬ s.Known request → (s.bindStep i request token fence).sessions.book = s.sessions.book ∧
        ((s.bindStep i request token fence).handlers[i]? = some (.registering request token fence) ∨
          ∃ status, (s.bindStep i request token fence).handlers[i]? = some (.undoing request token status))) := by
  unfold bindStep
  by_cases unnamed : request.session = ""
  · rw [if_pos unnamed]
    exact ⟨⟨rfl, rfl, rfl⟩, fun known => absurd unnamed known.1, fun _ => ⟨rfl, .inl (get_set here _)⟩⟩
  · rw [if_neg unnamed]
    cases found : s.sessions.book.lookup request.session with
    | none =>
      simp only [SessionBook.bind, Sessions.act, found, Option.getD_some]
      refine ⟨⟨rfl, rfl, rfl⟩, fun known => ?_, fun _ => ⟨trivial, .inr ⟨_, get_set here _⟩⟩⟩
      simp [Known, found] at known
    | some entry =>
      simp only [SessionBook.bind, Sessions.act, found, Option.getD_some]
      refine ⟨⟨rfl, rfl, rfl⟩, fun _ => ⟨get_set here _, fun same => ?_⟩, fun unknown => ?_⟩
      · have changed := congrArg (AList.lookup request.session) same
        rw [AList.lookup_insert, found, Option.some.injEq, SessionEntry.mk.injEq] at changed
        simp at changed
      · exact absurd ⟨unnamed, found ▸ rfl⟩ unknown

/-- The script runs to its end on a free key. -/
def Grants (s : Service) (request : LockRequest) : Prop :=
  LockOptions.validate ⟨request.ttl⟩ = .ok () ∧ request.ttl.asMillisU64 ≠ 0 ∧
    s.db.lookup s.now request.key = none

/-- What an acquire leaves whose handler has not been granted the lock. -/
structure Ungranted (i : Nat) (request : LockRequest) (before after : Service) : Prop where
  same : Same before after
  refused : ¬ before.Grants request
  next : after.handlers[i]? = some (.asking request) ∨ ∃ result, after.handlers[i]? = some (.answered (.lock result))

/-- What one leaves whose handler has. -/
structure Granted (i : Nat) (request : LockRequest) (token : String) (before after : Service) : Prop where
  now : after.now = before.now
  registry : after.registry = before.registry
  grants : before.Grants request
  own : ∀ other instant, before.now ≤ instant → holder request.key after.db instant = some other → other = token
  others : ∀ name instant, name ≠ request.key → before.now ≤ instant →
    holder name after.db instant = holder name before.db instant
  next : ∃ fence, after.handlers[i]? = some (.binding request token fence)

/-- With a token that is stored nowhere, a script without an effect met no free key. -/
theorem not_grants {request : LockRequest} {token : String}
    (unused : ∀ stop, s.db request.key ≠ some ⟨.string (.raw token), stop⟩)
    (same : (s.acquireOn request.key token request.ttl).2 = s.db) : ¬ s.Grants request := by
  rintro ⟨_, lasting, free⟩
  have held : holder request.key (s.acquireOn request.key token request.ttl).2 s.now = some token :=
    (holder_acquire (fenceKeyFor_ne request.key).symm (Nat.le_refl _) unused).mpr ⟨⟨lasting, free⟩, by omega⟩
  rw [same] at held
  obtain ⟨stop, found⟩ := holder_eq_some.mp held
  exact unused stop (Keyspace.lookup_eq_some.mp found).1

theorem attempted_error (request : LockRequest) (token : String) (error : Error) :
    attempted request token (.error error) = .asking request ∨
      ∃ result, attempted request token (.error error) = .answered (.lock result) := by
  unfold attempted
  split
  · next ok => cases ok
  · split
    · exact .inl rfl
    · exact .inr ⟨_, rfl⟩
  · exact .inr ⟨_, rfl⟩

theorem acquireOn_eq (s : Service) (key token : String) (ttl : Duration) : s.acquireOn key token ttl =
    (acquireReply key token ttl .balanced ((Single.acquire key (fenceKeyFor key) token ttl.asMillisU64
        (fenceTtlMs ttl.asMillisU64)).exec s.now s.db).1,
      ((Single.acquire key (fenceKeyFor key) token ttl.asMillisU64
        (fenceTtlMs ttl.asMillisU64)).exec s.now s.db).2) := rfl

/-- A granted script ran on a free key, took it for its token and left all other locks. -/
theorem acquireOn_granted {request : LockRequest} {token : String} {shared : HandleShared}
    (unused : ∀ stop, s.db request.key ≠ some ⟨.string (.raw token), stop⟩)
    (granted : (s.acquireOn request.key token request.ttl).1 = .ok shared) :
    (request.ttl.asMillisU64 ≠ 0 ∧ s.db.lookup s.now request.key = none) ∧
      (∀ other instant, s.now ≤ instant →
        holder request.key (s.acquireOn request.key token request.ttl).2 instant = some other → other = token) ∧
      ∀ name instant, name ≠ request.key → s.now ≤ instant →
        holder name (s.acquireOn request.key token request.ttl).2 instant = holder name s.db instant := by
  have distinct : request.key ≠ fenceKeyFor request.key := (fenceKeyFor_ne request.key).symm
  have lasting : request.ttl.asMillisU64 ≠ 0 := by
    intro zero
    rw [acquireOn_eq, exec_acquire, if_pos zero] at granted
    cases granted
  have acquired : ∃ status fence, (status = 1 ∨ status = 2) ∧
      (Single.acquire request.key (fenceKeyFor request.key) token request.ttl.asMillisU64
        (fenceTtlMs request.ttl.asMillisU64)).exec s.now s.db =
          (.ok (status, fence), (s.acquireOn request.key token request.ttl).2) := by
    rw [acquireOn_eq] at granted ⊢
    generalize (Single.acquire request.key (fenceKeyFor request.key) token request.ttl.asMillisU64
      (fenceTtlMs request.ttl.asMillisU64)).exec s.now s.db = outcome at granted ⊢
    obtain ⟨reply, after⟩ := outcome
    cases reply with
    | error fault => cases granted
    | ok answer =>
      obtain ⟨status, fence⟩ := answer
      by_cases taken : status = 1 ∨ status = 2
      · exact ⟨status, fence, taken, rfl⟩
      · simp [acquireReply, taken] at granted
  obtain ⟨status, fence, taken, ran⟩ := acquired
  obtain ⟨until_end, others⟩ := exec_acquire_granted distinct ran taken
  refine ⟨⟨lasting, ?_⟩, fun other instant later held => ?_, fun name instant elsewhere later =>
    others name elsewhere instant later⟩
  · have held := until_end s.now (Nat.le_refl _)
    rw [if_pos (by omega)] at held
    rw [acquireOn_eq] at held
    exact ((holder_acquire distinct (Nat.le_refl _) unused).mp held).1.2
  · rw [until_end instant later] at held
    obtain ⟨_, ⟨⟩⟩ := Option.ite_none_right_eq_some.mp held
    rfl

theorem acquireStep_spec {request : LockRequest} {token : String} (here : s.handlers[i]? = some handler)
    (unused : ∀ stop, s.db request.key ≠ some ⟨.string (.raw token), stop⟩)
    (effectless : ∀ error, (s.acquireOn request.key token request.ttl).1 = .error error →
      (s.acquireOn request.key token request.ttl).2 = s.db) :
    (s.acquireStep i request token).sessions.book = s.sessions.book ∧
      (Ungranted i request s (s.acquireStep i request token) ∨
        Granted i request token s (s.acquireStep i request token)) := by
  unfold acquireStep
  cases valid : LockOptions.validate ⟨request.ttl⟩ with
  | error error =>
    refine ⟨rfl, .inl ⟨⟨rfl, rfl, rfl⟩, fun grants => ?_, .inr ⟨_, get_set here _⟩⟩⟩
    cases valid.symm.trans grants.1
  | ok =>
    refine ⟨rfl, ?_⟩
    dsimp only
    cases result : (s.acquireOn request.key token request.ttl).1 with
    | error error =>
      have same := effectless error result
      refine .inl ⟨⟨rfl, same, rfl⟩, not_grants unused same, ?_⟩
      obtain next | ⟨answer, next⟩ := attempted_error request token error
      · rw [next]
        exact .inl (get_set here _)
      · rw [next]
        exact .inr ⟨answer, get_set here _⟩
    | ok shared =>
      obtain ⟨free, own, others⟩ := acquireOn_granted unused result
      exact .inr ⟨rfl, rfl, ⟨valid, free⟩, own, others, _, get_set here _⟩

namespace Alone

/-- An answered request is done. -/
theorem answered {answer : Answer} (ran : Alone maxKeys i s schedule t)
    (here : s.handlers[i]? = some (.answered answer)) : t = s ∧ schedule = [] := by
  cases ran with
  | done => exact ⟨rfl, rfl⟩
  | step own stepped left => cases own_moves own stepped here

theorem undoing {request : LockRequest} {token : String} {answer : Answer} (ran : Alone maxKeys i s schedule t)
    (here : s.handlers[i]? = some (.undoing request token status))
    (ended : t.handlers[i]? = some (.answered answer)) :
    Undone request.key token s t ∧ t.sessions.book = s.sessions.book := by
  cases ran with
  | done => cases here.symm.trans ended
  | @step _ _ _ moment rest own stepped left =>
    obtain ⟨delay, elapsed, action⟩ := moment
    cases own_moves own stepped here with
    | undo strays =>
      obtain ⟨rfl, _⟩ := left.answered (get_set (s := s.wait delay elapsed) here _)
      refine ⟨⟨Nat.le_add_right _ _, rfl, fun name other instant later => ?_⟩, rfl⟩
      exact (holder_unlocked (s := s.wait delay elapsed) .executes later).trans (by simp [wait])

theorem registering {request : LockRequest} {token : String} {fence : FencingToken}
    (ran : Alone maxKeys i s schedule t) (here : s.handlers[i]? = some (.registering request token fence))
    (ended : t.handlers[i]? = some (.answered (.lock (.error status)))) :
    (s.registry.holders request.key = none ∧ s.registry.Full request.principal (maxKeys request.principal)) ∧
      Undone request.key token s t ∧ t.sessions.book = s.sessions.book := by
  cases ran with
  | done => cases here.symm.trans ended
  | @step _ _ _ moment rest own stepped left =>
    obtain ⟨delay, elapsed, action⟩ := moment
    cases own_moves own stepped here with
    | register =>
      have waiting : (s.wait delay elapsed).handlers[i]? = some (.registering request token fence) := here
      obtain done | ⟨full, ⟨refusal, undo⟩, same, book⟩ :=
        registerStep_spec maxKeys request token fence waiting
      · obtain ⟨rfl, _⟩ := left.answered done
        cases done.symm.trans ended
      · obtain ⟨undone, kept⟩ := left.undoing undo ended
        refine ⟨full, undone.of_same same, kept.trans ?_⟩
        rw [book]
        rfl

theorem binding {request : LockRequest} {token : String} {fence : FencingToken}
    (ran : Alone maxKeys i s schedule t) (here : s.handlers[i]? = some (.binding request token fence))
    (ended : t.handlers[i]? = some (.answered (.lock (.error status)))) :
    Undone request.key token s t ∧ (t.sessions.book = s.sessions.book ↔ ¬ s.Known request) ∧
      (s.Known request → s.registry.holders request.key = none ∧
        s.registry.Full request.principal (maxKeys request.principal)) := by
  cases ran with
  | done => cases here.symm.trans ended
  | @step _ _ _ moment rest own stepped left =>
    obtain ⟨delay, elapsed, action⟩ := moment
    cases own_moves own stepped here with
    | bind =>
      have waiting : (s.wait delay elapsed).handlers[i]? = some (.binding request token fence) := here
      obtain ⟨same, known, unknown⟩ := bindStep_spec request token fence waiting
      by_cases session : s.Known request
      · obtain ⟨next, marked⟩ := known session
        obtain ⟨full, undone, book⟩ := left.registering next ended
        rw [same.registry] at full
        refine ⟨undone.of_same same, iff_of_false ?_ (not_not.mpr session), fun _ => full⟩
        rw [book]
        exact marked
      · obtain ⟨book, next | ⟨refusal, next⟩⟩ := unknown session
        · obtain ⟨_, undone, kept⟩ := left.registering next ended
          exact ⟨undone.of_same same, iff_of_true (kept.trans book) session, fun known => absurd known session⟩
        · obtain ⟨undone, kept⟩ := left.undoing next ended
          exact ⟨undone.of_same same, iff_of_true (kept.trans book) session, fun known => absurd known session⟩

/-- A granted lock that is undone is gone, and the others are where they were. -/
theorem unmarked_iff {request : LockRequest} {token : String} (granted : Granted i request token s u)
    (undone : Undone request.key token u t) :
    Unmarked s t ↔ t.sessions.book = s.sessions.book := by
  refine ⟨Unmarked.book, fun book => ⟨fun name instant later => ?_, undone.registry.trans granted.registry, book⟩⟩
  have since : s.now ≤ instant := granted.now ▸ undone.later.trans later
  apply Option.ext
  intro other
  rw [undone.locks name other instant later]
  by_cases here : name = request.key
  · subst here
    have before : holder request.key s.db instant = none :=
      holder_later (by simp [holder, granted.grants.2.2]) since
    rw [before]
    refine iff_of_false ?_ (by simp)
    rintro ⟨held, foreign⟩
    exact foreign (congrArg (request.key, ·) (granted.own other instant since held))
  · rw [granted.others name instant here since]
    exact and_iff_left fun same => here (congrArg Prod.fst same)

/-- What a request has marked is seen against the locks, the registry and the book it met. -/
theorem unmarked_of_eq (db : u.db = s.db) (registry : u.registry = s.registry)
    (book : u.sessions.book = s.sessions.book) (unmarked : Unmarked s t) : Unmarked u t where
  locks := by
    rw [db]
    exact unmarked.locks
  registry := unmarked.registry.trans registry.symm
  book := unmarked.book.trans book.symm

/-- Steps that only let time pass are no trace and hide none. -/
theorem unmarked_congr {delay elapsed : Nat} (same : Same (s.wait delay elapsed) u)
    (sessions : u.sessions.book = s.sessions.book) : Unmarked s t ↔ Unmarked u t :=
  ⟨unmarked_of_eq same.db same.registry sessions, unmarked_of_eq same.db.symm same.registry.symm sessions.symm⟩

/-- An attempt that is not granted is as if the request came after it. -/
theorem overdrawn_congr {request : LockRequest} {delay elapsed : Nat} {rest : List ServiceMoment}
    (same : Same (s.wait delay elapsed) u) (sessions : u.sessions.book = s.sessions.book)
    (missed : (∃ j token, action = .acquire j token) → ¬ (s.wait delay elapsed).Grants request) :
    Overdrawn maxKeys s request (⟨delay, elapsed, action⟩ :: rest) ↔ Overdrawn maxKeys u request rest := by
  have db : u.db = s.db := same.db
  have now : u.now = s.now + delay := same.now
  have registry : u.registry = s.registry := same.registry
  constructor
  · rintro ⟨valid, lasting, free | free, session, untracked, full⟩
    · exact absurd ⟨valid, lasting, free.2⟩ (missed free.1)
    · refine ⟨valid, lasting, ?_, ?_, ?_, ?_⟩
      · rw [db, now]
        exact free
      · rw [Known, sessions]
        exact session
      · rw [registry]
        exact untracked
      · rw [registry]
        exact full
  · rintro ⟨valid, lasting, free, session, untracked, full⟩
    refine ⟨valid, lasting, .inr ?_, ?_, ?_, ?_⟩
    · rw [db, now] at free
      exact free
    · rw [Known, sessions] at session
      exact session
    · rw [registry] at untracked
      exact untracked
    · rw [registry] at full
      exact full

/-- A granted lock that is undone leaves what its binding left. -/
theorem granted_unmarked_iff {request : LockRequest} {token : String} {delay elapsed : Nat} {rest : List ServiceMoment}
    (granted : Granted i request token (s.wait delay elapsed) u) (sessions : u.sessions.book = s.sessions.book)
    (undone : Undone request.key token u t) (kept : t.sessions.book = u.sessions.book ↔ ¬ u.Known request)
    (full : u.Known request → u.registry.holders request.key = none ∧
      u.registry.Full request.principal (maxKeys request.principal)) :
    Unmarked s t ↔ ¬ Overdrawn maxKeys s request (⟨delay, elapsed, .acquire i token⟩ :: rest) := by
  have known : u.Known request ↔ s.Known request := by rw [Known, Known, sessions]
  have registry : u.registry = s.registry := granted.registry
  rw [sessions, known] at kept
  rw [known, registry] at full
  have waited : Unmarked s t ↔ Unmarked (s.wait delay elapsed) t := unmarked_congr ⟨rfl, rfl, rfl⟩ rfl
  rw [waited, unmarked_iff granted undone]
  refine kept.trans (not_congr ⟨fun session => ?_, Overdrawn.session⟩)
  obtain ⟨untracked, full⟩ := full session
  obtain ⟨valid, lasting, free⟩ := granted.grants
  exact ⟨valid, lasting, .inl ⟨⟨i, token, rfl⟩, free⟩, session, untracked, full⟩

theorem not_overdrawn_nil {request : LockRequest} : ¬ Overdrawn maxKeys s request [] := fun overdrawn => overdrawn.free

/-- A request that is turned down leaves a trace exactly if it is turned down by its quota
with its lock bound to a session. -/
theorem asking {request : LockRequest} (ran : Alone maxKeys i s schedule t)
    (here : s.handlers[i]? = some (.asking request))
    (ended : t.handlers[i]? = some (.answered (.lock (.error status)))) :
    Unmarked s t ↔ ¬ Overdrawn maxKeys s request schedule := by
  induction ran with
  | done => cases here.symm.trans ended
  | @step s next _ moment rest own stepped left ih =>
    obtain ⟨delay, elapsed, action⟩ := moment
    have waiting : (s.wait delay elapsed).handlers[i]? = some (.asking request) := here
    cases own_moves own stepped here with
    | @acquire _ token unused effectless =>
      obtain ⟨book, refused | granted⟩ := acquireStep_spec waiting unused effectless
      · rw [unmarked_congr refused.same book, overdrawn_congr refused.same book fun _ => refused.refused]
        obtain again | ⟨result, answered⟩ := refused.next
        · exact ih again ended
        · obtain ⟨rfl, rfl⟩ := left.answered answered
          exact iff_of_true (.refl _) not_overdrawn_nil
      · obtain ⟨fence, binding⟩ := granted.next
        obtain ⟨undone, kept, full⟩ := left.binding binding ended
        exact granted_unmarked_iff granted book undone kept full
    | abandon gaveUp =>
      simp only [abandonStep] at gaveUp
      split at gaveUp
      · cases gaveUp
        obtain ⟨rfl, rfl⟩ := left.answered (get_set waiting _)
        refine iff_of_true ⟨fun _ _ _ => rfl, rfl, rfl⟩ fun overdrawn => ?_
        obtain ⟨⟨_, _, ⟨⟩⟩, _⟩ | never := overdrawn.free
        exact never
      · contradiction
    | giveUp =>
      obtain ⟨rfl, _⟩ := left.answered (get_set waiting _)
      cases (get_set waiting _).symm.trans ended

end Alone

end Service

namespace PalisadeService

/-- The checks of `try_lock` and `try_lock_for`, and the request they make. -/
def lockRequest (s : PalisadeService) (metadata : Metadata) (key session : String) (ttlMs : Option UInt64)
    (waits : Bool) : Except Status LockRequest := do
  s.checkReady
  let principal ← s.acl.principal metadata
  let ttl ← optionsFromPb ttlMs s.config
  principal.checkLock key
  return ⟨principal.name, key, session, ttl, waits⟩

theorem tryLock_eq (s : PalisadeService) (metadata : Metadata) (key session : String) (ttlMs : Option UInt64)
    (waits : Bool) : s.tryLock metadata key session ttlMs waits =
      s.checked (s.lockRequest metadata key session ttlMs waits) fun request =>
        (.ok .underway, s.enter (.asking request)) := rfl

/-- The request is answered with an error: by its checks, or after the steps of `schedule`
by the handler it got. -/
inductive Rejects (maxKeys : String → Nat) (s : PalisadeService) (metadata : Metadata) (key session : String)
    (ttlMs : Option UInt64) (waits : Bool) : List ServiceMoment → Service → Prop where
  | checks {status : Status} {after : PalisadeService}
      (refused : s.tryLock metadata key session ttlMs waits = (.error status, after)) :
      Rejects maxKeys s metadata key session ttlMs waits [] after.service
  | handler {reply : Reply} {after : PalisadeService} {schedule : List ServiceMoment} {t : Service} {status : Status}
      (entered : s.tryLock metadata key session ttlMs waits = (.ok reply, after))
      (ran : Service.Alone maxKeys s.service.handlers.length after.service schedule t)
      (ended : t.handlers[s.service.handlers.length]? = some (.answered (.lock (.error status)))) :
      Rejects maxKeys s metadata key session ttlMs waits schedule t

/-- A request for a lock that is answered with an error leaves a trace exactly if its quota
refuses it when its lock is already bound to its session. -/
theorem rejects_unmarked_iff {maxKeys : String → Nat} {s : PalisadeService} {metadata : Metadata} {key session : String}
    {ttlMs : Option UInt64} {waits : Bool} {schedule : List ServiceMoment} {t : Service}
    (rejected : s.Rejects maxKeys metadata key session ttlMs waits schedule t) :
    Service.Unmarked s.service t ↔ ¬ ∃ request, s.lockRequest metadata key session ttlMs waits = .ok request ∧
      Service.Overdrawn maxKeys s.service request schedule := by
  cases rejected with
  | checks refused =>
    rw [tryLock_eq] at refused
    cases checks : s.lockRequest metadata key session ttlMs waits with
    | ok request =>
      rw [checks] at refused
      cases refused
    | error status =>
      rw [checks] at refused
      cases refused
      exact iff_of_true (.refl _) (by simp)
  | handler entered ran ended =>
    rw [tryLock_eq] at entered
    cases checks : s.lockRequest metadata key session ttlMs waits with
    | error status =>
      rw [checks] at entered
      cases entered
    | ok request =>
      rw [checks] at entered
      cases entered
      have asking : (s.enter (.asking request)).service.handlers[s.service.handlers.length]? =
          some (.asking request) := by simp [enter]
      have entering : Service.Same (s.service.wait 0 0) (s.enter (.asking request)).service := ⟨rfl, rfl, rfl⟩
      rw [Service.Alone.unmarked_congr entering rfl, ran.asking asking ended]
      refine not_congr ⟨fun overdrawn => ⟨request, rfl, ?_⟩, ?_⟩
      · obtain ⟨valid, lasting, free, session, untracked, full⟩ := overdrawn
        exact ⟨valid, lasting, free, session, untracked, full⟩
      · rintro ⟨_, ⟨⟩, valid, lasting, free, session, untracked, full⟩
        exact ⟨valid, lasting, free, session, untracked, full⟩

end PalisadeService

/-- The service of `ci`, which has all the keys it may have and a session. -/
def PalisadeService.atCeiling : PalisadeService := { PalisadeService.listed true with
  service := { Service.fresh with
    registry := ⟨fun _ => none, fun principal => if principal = "ci" then some 50 else none⟩
    sessions := { Sessions.fresh with book := SessionBook.register ∅ 0 "s" "client" (.fromMillis 3000) } } }

/-- The first request of the service mints a token that its empty store does not have. -/
theorem PalisadeService.atCeiling_own (request : LockRequest)
    (granted : (((PalisadeService.atCeiling.enter (.asking request)).service.wait 5 0).acquireOn request.key "t"
      request.ttl).1.isOk = true) :
    ((PalisadeService.atCeiling.enter (.asking request)).service.wait 5 0).Own 0 (.acquire 0 "t") := by
  refine ⟨rfl, ?_⟩
  rintro _ ⟨⟩
  refine ⟨fun stop stored => ?_, fun error failed => ?_⟩
  · cases stored
  · rw [failed] at granted
    cases granted

/-- Its lock cannot be bound to a session that is gone. -/
theorem unknown_session_unmarked : ∃ schedule t,
    PalisadeService.atCeiling.Rejects (fun _ => 50) bearerRequest "ci/build" "gone" none false schedule t ∧
      Service.Unmarked PalisadeService.atCeiling.service t := by
  have made : PalisadeService.atCeiling.lockRequest bearerRequest "ci/build" "gone" none false =
      .ok ⟨"ci", "ci/build", "gone", .fromMillis 30000, false⟩ := rfl
  have rejected : PalisadeService.atCeiling.Rejects (fun _ => 50) bearerRequest "ci/build" "gone" none false
      [⟨5, 0, .acquire 0 "t"⟩, ⟨0, 0, .bind 0⟩, ⟨5, 0, .undo 0 .executes⟩] _ :=
    .handler rfl (.step (PalisadeService.atCeiling_own _ (by decide)) rfl (.step rfl rfl
      (.step ⟨rfl, rfl⟩ rfl (.done _)))) rfl
  refine ⟨_, _, rejected, (PalisadeService.rejects_unmarked_iff rejected).mpr ?_⟩
  rintro ⟨request, accepted, overdrawn⟩
  cases made.symm.trans accepted
  have known := overdrawn.session.2
  revert known
  decide

/-- The quota refuses the lock, and the session keeps it. -/
theorem refused_lock_bound : ¬ ∀ maxKeys s metadata key session ttlMs waits schedule t,
    PalisadeService.Rejects maxKeys s metadata key session ttlMs waits schedule t → Service.Unmarked s.service t := by
  intro unmarked
  have rejected : PalisadeService.atCeiling.Rejects (fun _ => 50) bearerRequest "ci/build" "s" none false
      [⟨5, 0, .acquire 0 "t"⟩, ⟨0, 0, .bind 0⟩, ⟨0, 0, .register 0⟩, ⟨5, 0, .undo 0 .executes⟩] _ :=
    .handler rfl (.step (PalisadeService.atCeiling_own _ (by decide)) rfl (.step rfl rfl (.step rfl rfl
      (.step ⟨rfl, rfl⟩ rfl (.done _))))) rfl
  have book := (unmarked _ _ _ _ _ _ _ _ _ rejected).book
  revert book
  decide

end Palisade.Server
