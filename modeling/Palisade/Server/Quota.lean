import Palisade.Server.Service

/-! The quota `max_keys` over whole runs of the service. The registry always agrees with
itself; a principal stays within its quota for as long as every live lock that was granted
has its slot in the registry. -/
namespace Palisade.Server
open Redis Single Transition

namespace Handler
variable {handlers : List Handler} {handler next : Handler} {i j : Nat} {token principal : String}

/-- The `i`-th handler holds the lock of `token` and has not granted it. -/
def Carries (handlers : List Handler) (i : Nat) (token : String) : Prop :=
  ∃ handler, handlers[i]? = some handler ∧ handler.token? = some token

/-- How many releases have taken a key of `principal` out and not lowered its count. -/
def owed (handlers : List Handler) (principal : String) : Nat :=
  handlers.countP fun handler => decide (handler.owes = some principal)

theorem carries_append (blank : handler.Blank) (carries : Carries (handlers ++ [handler]) i token) :
    Carries handlers i token := by
  obtain ⟨found, here, own⟩ := carries
  by_cases inside : i < handlers.length
  · rw [List.getElem?_append_left inside] at here
    exact ⟨found, here, own⟩
  · rw [List.getElem?_append_right (Nat.le_of_not_lt inside)] at here
    obtain rfl := List.mem_singleton.mp (List.mem_of_getElem? here)
    rw [blank.token] at own
    contradiction

theorem carries_set (carries : Carries (handlers.set i next) j token) :
    (j = i ∧ next.token? = some token) ∨ (j ≠ i ∧ Carries handlers j token) := by
  obtain ⟨found, here, own⟩ := carries
  by_cases same : j = i
  · subst same
    rw [List.getElem?_set_self'] at here
    obtain ⟨_, _, rfl⟩ := Option.map_eq_some_iff.mp here
    exact .inl ⟨rfl, own⟩
  · rw [List.getElem?_set_ne (Ne.symm same)] at here
    exact .inr ⟨same, found, here, own⟩

theorem owed_append (blank : handler.Blank) (principal : String) :
    owed (handlers ++ [handler]) principal = owed handlers principal := by
  simp [owed, List.countP_append, blank.owes]

theorem owed_set (here : handlers[i]? = some handler) (next : Handler) (principal : String) :
    owed (handlers.set i next) principal + (if handler.owes = some principal then 1 else 0) =
      owed handlers principal + if next.owes = some principal then 1 else 0 := by
  obtain ⟨inside, rfl⟩ := List.getElem?_eq_some_iff.mp here
  have positive : handlers[i].owes = some principal → 0 < owed handlers principal := by
    intro owes
    exact List.countP_pos_iff.mpr ⟨_, List.getElem_mem inside, decide_eq_true owes⟩
  simp only [owed, List.countP_set inside, decide_eq_true_eq]
  split
  · have := positive ‹_›
    simp only [owed] at this
    omega
  · omega

theorem owed_same (here : handlers[i]? = some handler) (before : handler.owes = none)
    (after : next.owes = none) (principal : String) :
    owed (handlers.set i next) principal = owed handlers principal := by
  have balance := owed_set here next principal
  simpa only [before, after, reduceCtorEq, if_false, Nat.add_zero] using balance

theorem owed_owe {owner : String} (here : handlers[i]? = some handler) (before : handler.owes = none)
    (after : next.owes = some owner) (principal : String) :
    owed (handlers.set i next) principal =
      Function.update (owed handlers) owner (owed handlers owner + 1) principal := by
  have balance := owed_set here next principal
  simp only [before, after, reduceCtorEq, if_false, Nat.add_zero, Option.some.injEq] at balance
  by_cases same : principal = owner
  · subst same
    rw [balance, if_pos rfl, Function.update_self]
  · rw [balance, if_neg (Ne.symm same), Function.update_of_ne same, Nat.add_zero]

theorem owed_pay {owner : String} (here : handlers[i]? = some handler)
    (before : handler.owes = some owner) (after : next.owes = none) :
    0 < owed handlers owner ∧ ∀ principal, owed (handlers.set i next) principal =
      Function.update (owed handlers) owner (owed handlers owner - 1) principal := by
  have balance (principal : String) := owed_set here next principal
  simp only [before, after, reduceCtorEq, if_false, Nat.add_zero, Option.some.injEq] at balance
  have own := balance owner
  rw [if_pos rfl] at own
  refine ⟨by omega, fun principal => ?_⟩
  by_cases same : principal = owner
  · subst same
    rw [Function.update_self]
    omega
  · rw [Function.update_of_ne same, ← balance principal, if_neg (Ne.symm same), Nat.add_zero]

end Handler

/-! Every lock token belongs to one handler or to one grant. -/

section
open Handler

structure Tokens (handlers : List Handler) (grants : List Grant) (minted : List String) : Prop where
  handled : ∀ i token, Carries handlers i token → token ∈ minted
  granted : ∀ grant ∈ grants, grant.token ∈ minted
  apart : ∀ i token, Carries handlers i token → ∀ grant ∈ grants, grant.token ≠ token
  distinct : ∀ i j token, Carries handlers i token → Carries handlers j token → i = j

namespace Tokens
variable {handlers after : List Handler} {grants : List Grant} {minted : List String}
  {handler next : Handler} {i : Nat} {token : String}

theorem shrink (tokens : Tokens handlers grants minted)
    (fewer : ∀ i token, Carries after i token → Carries handlers i token) :
    Tokens after grants minted where
  handled i token carries := tokens.handled i token (fewer i token carries)
  granted := tokens.granted
  apart i token carries := tokens.apart i token (fewer i token carries)
  distinct i j token first second := tokens.distinct i j token (fewer i token first) (fewer j token second)

theorem set (tokens : Tokens handlers grants minted) (here : handlers[i]? = some handler)
    (kept : next.token? = none ∨ next.token? = handler.token?) :
    Tokens (handlers.set i next) grants minted := by
  refine tokens.shrink fun j token carries => ?_
  obtain ⟨rfl, own⟩ | ⟨_, carries⟩ := carries_set carries
  · obtain gone | same := kept
    · rw [gone] at own
      contradiction
    · exact ⟨handler, here, same ▸ own⟩
  · exact carries

theorem mint (tokens : Tokens handlers grants minted) (token : String) :
    Tokens handlers grants (token :: minted) where
  handled i other carries := List.mem_cons_of_mem token (tokens.handled i other carries)
  granted grant member := List.mem_cons_of_mem token (tokens.granted grant member)
  apart := tokens.apart
  distinct := tokens.distinct

/-- A handler takes a fresh token, or none. -/
theorem take (tokens : Tokens handlers grants minted) (fresh : token ∉ minted)
    (taken : next.token? = none ∨ next.token? = some token) :
    Tokens (handlers.set i next) grants (token :: minted) := by
  have own {other : String} (found : next.token? = some other) : other = token := by
    obtain gone | same := taken
    · rw [gone] at found
      contradiction
    · exact Option.some.inj (found.symm.trans same)
  refine ⟨?_, (tokens.mint token).granted, ?_, ?_⟩
  · intro j other carries
    obtain ⟨rfl, found⟩ | ⟨_, carries⟩ := carries_set carries
    · exact own found ▸ List.mem_cons_self
    · exact (tokens.mint token).handled j other carries
  · intro j other carries grant member same
    obtain ⟨rfl, found⟩ | ⟨_, carries⟩ := carries_set carries
    · exact fresh (own found ▸ same ▸ tokens.granted grant member)
    · exact tokens.apart j other carries grant member same
  · intro j k other first second
    obtain ⟨rfl, found⟩ | ⟨_, left⟩ := carries_set first
    · obtain ⟨rfl, _⟩ | ⟨_, right⟩ := carries_set second
      · rfl
      · exact absurd (own found ▸ tokens.handled k other right) fresh
    · obtain ⟨rfl, found⟩ | ⟨_, right⟩ := carries_set second
      · exact absurd (own found ▸ tokens.handled j other left) fresh
      · exact tokens.distinct j k other left right

/-- A handler's token passes to the caller. -/
theorem grant {key principal : String} (tokens : Tokens handlers grants minted)
    (here : handlers[i]? = some handler) (own : handler.token? = some token) (gone : next.token? = none) :
    Tokens (handlers.set i next) (⟨key, token, principal⟩ :: grants) minted := by
  have smaller : Tokens (handlers.set i next) grants minted := tokens.set here (.inl gone)
  refine ⟨smaller.handled, ?_, ?_, smaller.distinct⟩
  · intro grant member
    obtain rfl | member := List.mem_cons.mp member
    · exact tokens.handled i token ⟨handler, here, own⟩
    · exact tokens.granted grant member
  · intro j other carries grant member same
    obtain rfl | member := List.mem_cons.mp member
    · obtain rfl : token = other := same
      obtain ⟨rfl, found⟩ | ⟨elsewhere, carries⟩ := carries_set carries
      · rw [gone] at found
        contradiction
      · exact elsewhere (tokens.distinct j i token carries ⟨handler, here, own⟩)
    · exact smaller.apart j other carries grant member same

end Tokens
end

namespace Service
variable {maxKeys : String → Nat} {s t : Service}

/-- What holds in every run: the registry counts right and admits no more than the quota,
and lock tokens are told apart. -/
structure Books (maxKeys : String → Nat) (s : Service) : Prop where
  tallied : s.registry.Tallied (Handler.owed s.handlers)
  bounded : s.registry.Bounded maxKeys
  tokens : Tokens s.handlers s.grants s.minted

theorem attempted_token (request : LockRequest) (token : String) (result : Except Error HandleShared) :
    ((attempted request token result).token? = none ∨
      (attempted request token result).token? = some token) ∧
    (attempted request token result).owes = none := by
  unfold attempted
  split
  · exact ⟨.inr rfl, rfl⟩
  · split
    · exact ⟨.inl rfl, rfl⟩
    · exact ⟨.inl rfl, rfl⟩
  · exact ⟨.inl rfl, rfl⟩

theorem Moves.books {action : ServiceAction} (moved : s.Moves maxKeys action t)
    (books : s.Books maxKeys) : t.Books maxKeys := by
  obtain ⟨tallied, bounded, tokens⟩ := books
  cases moved with
  | enter blank =>
    exact ⟨tallied.congr (Handler.owed_append blank), bounded,
      tokens.shrink fun _ _ => Handler.carries_append blank⟩
  | goOn book left here quiet =>
    exact ⟨tallied.congr (Handler.owed_same here quiet.owes quiet.owesAfter), bounded,
      tokens.set here quiet.token⟩
  | session | release | lateRelease | lateDel | extend => exact ⟨tallied, bounded, tokens⟩
  | @acquire i request token here fresh =>
    obtain ⟨taken, owes⟩ := attempted_token request token
      (s.acquireOn request.key token request.ttl).1
    exact ⟨tallied.congr (Handler.owed_same here rfl owes), bounded, tokens.take fresh taken⟩
  | stray left fresh => exact ⟨tallied, bounded, tokens.mint _⟩
  | tracked here found =>
    exact ⟨tallied.congr (Handler.owed_same here rfl rfl), bounded, tokens.grant here rfl rfl⟩
  | inserted here free room =>
    exact ⟨(tallied.insert free).congr (Handler.owed_same here rfl rfl), bounded.insert room,
      tokens.grant here rfl rfl⟩
  | refused status here free full =>
    exact ⟨tallied.congr (Handler.owed_same here rfl rfl), bounded, tokens.set here (.inr rfl)⟩
  | undo left here =>
    exact ⟨tallied.congr (Handler.owed_same here rfl rfl), bounded, tokens.set here (.inl rfl)⟩
  | freed left here blank =>
    exact ⟨tallied.congr (Handler.owed_same here blank.owes rfl), bounded, tokens.set here (.inl rfl)⟩
  | removed here found =>
    exact ⟨(tallied.remove found).congr (Handler.owed_owe here rfl rfl), bounded, tokens.set here (.inl rfl)⟩
  | missing here free =>
    exact ⟨(tallied.missing free).congr (Handler.owed_same here rfl rfl), bounded,
      tokens.set here (.inl rfl)⟩
  | @decrement i owner answer here =>
    have settled : (Handler.answered answer).owes = none := rfl
    obtain ⟨due, paid⟩ := Handler.owed_pay here rfl settled
    exact ⟨(tallied.decrement due).congr paid, bounded.decrement, tokens.set here (.inl rfl)⟩

theorem Books.wait (books : s.Books maxKeys) (delay elapsed : Nat) : (s.wait delay elapsed).Books maxKeys :=
  ⟨books.tallied, books.bounded, books.tokens⟩

theorem books_initial (first : (service maxKeys).initial s) : s.Books maxKeys := by
  obtain ⟨registry, _, handlers, _, minted, grants, _⟩ := first
  refine ⟨?_, ?_, ?_, ?_, ?_, ?_⟩
  · rw [registry, handlers]
    exact fun principal => ⟨[], List.nodup_nil, by simp, rfl⟩
  · rw [registry]
    exact fun principal _ => Nat.zero_le _
  · simp [handlers, Handler.Carries]
  · simp [grants]
  · simp [handlers, Handler.Carries]
  · simp [handlers, Handler.Carries]

/-! What the Redis steps do to the locks of others. -/

theorem holder_acquireOn {name key token other : String} {ttl : Duration} (foreign : other ≠ token) :
    holder name (s.acquireOn key token ttl).2 s.now = some other ↔ holder name s.db s.now = some other :=
  holder_acquire_other foreign

theorem holder_unlock {name key token other : String} (fate : Fate) :
    holder name (s.unlockWithToken key token fate).2 s.now = some other ↔
      holder name s.db s.now = some other ∧ (fate = .executes → ¬ (name = key ∧ other = token)) := by
  cases fate with
  | executes =>
    simp only [forall_const]
    exact holder_release_other
  | fails message => simp [unlockWithToken]

/-- No step makes a granted lock live that was not. -/
theorem Moves.live_before {action : ServiceAction} {grant : Grant} (moved : s.Moves maxKeys action t)
    (books : s.Books maxKeys) (member : grant ∈ s.grants) (live : t.Live grant) : s.Live grant := by
  have minted := books.tokens.granted grant member
  cases moved with
  | enter | goOn | session | tracked | inserted | refused | removed | missing | decrement => exact live
  | acquire here fresh => exact (holder_acquireOn (ne_of_mem_of_not_mem minted fresh)).mp live
  | stray left fresh => exact (holder_acquireOn (ne_of_mem_of_not_mem minted fresh)).mp live
  | undo | release | lateRelease => exact ((holder_unlock _).mp live).1
  | freed _ _ _ _ ends => exact ((ends _ _).mp live).1
  | lateDel _ _ ends => exact ((ends _ _).mp live).1
  | extend => exact holder_extend_other.1 live

/-- Every live lock that was granted has its slot. -/
def Covered (s : Service) : Prop :=
  ∀ grant ∈ s.grants, s.Live grant → s.registry.holders grant.key = some grant.principal

/-- Redis and the registry agree where the handler's next step counts on it: a lock that is
registered while it is held is on a key no other principal has in the registry, and a key
is taken out of the registry when no lock is granted on it any more. -/
def Agrees (s : Service) : Handler → Prop
  | .registering request token _ => s.Live ⟨request.key, token, request.principal⟩ →
      ∀ owner ∈ s.registry.holders request.key, owner = request.principal
  | .freeing key _ => ∀ grant ∈ s.grants, grant.key = key → ¬ s.Live grant
  | _ => True

def Consistent (s : Service) : ServiceAction → Prop
  | .register i | .remove i => ∀ handler ∈ s.handlers[i]?, s.Agrees handler
  | _ => True

theorem Covered.remove {i : Nat} {key : String} {answer : Answer} (covered : s.Covered)
    (here : s.handlers[i]? = some (.freeing key answer)) (consistent : s.Consistent (.remove i)) :
    ∀ grant ∈ s.grants, s.Live grant →
      (s.registry.removeHolder key).2.holders grant.key = some grant.principal := by
  intro grant member live
  have elsewhere : grant.key ≠ key := fun same => consistent _ here grant member same live
  rw [HeldRegistry.removeHolder_of_ne elsewhere]
  exact covered grant member live

theorem Moves.covered {action : ServiceAction} (moved : s.Moves maxKeys action t)
    (books : s.Books maxKeys) (covered : s.Covered) (consistent : s.Consistent action) : t.Covered := by
  have before (grant : Grant) (member : grant ∈ s.grants) (live : t.Live grant) :
      s.registry.holders grant.key = some grant.principal :=
    covered grant member (moved.live_before books member live)
  cases moved with
  | enter | goOn | session | acquire | stray | refused | undo | freed | release | lateRelease
  | lateDel | extend => exact before
  | tracked here found =>
    intro grant member live
    obtain rfl | member := List.mem_cons.mp member
    · exact found.trans (congrArg some (consistent _ here live _ found))
    · exact before grant member live
  | @inserted i request token fence here free room =>
    intro grant member live
    obtain rfl | member := List.mem_cons.mp member
    · exact Function.update_self _ _ _
    · have slot := before grant member live
      have elsewhere : grant.key ≠ request.key := by
        intro same
        rw [same, free] at slot
        contradiction
      exact (Function.update_of_ne elsewhere _ _).trans slot
  | removed here found => exact covered.remove here consistent
  | missing here free => exact covered.remove here consistent
  | decrement here =>
    intro grant member live
    rw [HeldRegistry.decrement_holders]
    exact before grant member live

theorem mem_heldBy {key principal : String} : key ∈ s.heldBy principal ↔
    ∃ grant ∈ s.grants, grant.key = key ∧ grant.principal = principal ∧ s.Live grant := by
  simp only [heldBy, List.mem_dedup, List.mem_map, List.mem_filter, decide_eq_true_eq]
  constructor
  · rintro ⟨grant, ⟨member, own, live⟩, rfl⟩
    exact ⟨grant, member, rfl, own, live⟩
  · rintro ⟨grant, member, rfl, own, live⟩
    exact ⟨grant, ⟨member, own, live⟩, rfl⟩

/-- No principal with a quota holds more keys than that. -/
def WithinQuota (maxKeys : String → Nat) (s : Service) : Prop :=
  ∀ principal, 0 < maxKeys principal → (s.heldBy principal).length ≤ maxKeys principal

theorem Books.withinQuota (books : s.Books maxKeys) (covered : s.Covered) : s.WithinQuota maxKeys := by
  intro principal limited
  obtain ⟨keys, _, mapped, counted⟩ := books.tallied principal
  have tracked : s.heldBy principal ⊆ keys := by
    intro key held
    obtain ⟨grant, member, rfl, rfl, live⟩ := mem_heldBy.mp held
    exact (mapped grant.key).mpr (covered grant member live)
  calc (s.heldBy principal).length
      ≤ keys.length := (List.nodup_dedup _).length_le_of_subset tracked
    _ ≤ s.registry.count principal := by omega
    _ ≤ maxKeys principal := books.bounded principal limited

theorem Covered.wait (covered : s.Covered) (delay elapsed : Nat) : (s.wait delay elapsed).Covered := by
  intro grant member live
  exact covered grant member (holder_earlier live (Nat.le_add_right _ _))

end Service

/-- Judged when the step happens. -/
def InStep (s : Service) (moment : ServiceMoment) : Prop :=
  (s.wait moment.delay moment.elapsed).Consistent moment.action

/-- In every run whose registry steps all happen while the registry agrees with Redis, no
principal ever holds more keys than its quota. -/
theorem held_within_quota {maxKeys : String → Nat} {s : Service}
    (reach : (service maxKeys).ReachableWhen InStep s) : s.WithinQuota maxKeys := by
  have both : s.Books maxKeys ∧ s.Covered := by
    refine reach.invariant (P := fun s => s.Books maxKeys ∧ s.Covered) ?_ ?_
    · intro s first
      refine ⟨Service.books_initial first, ?_⟩
      obtain ⟨_, _, _, _, _, grants, _⟩ := first
      simp [Service.Covered, grants]
    · rintro s moment t ⟨books, covered⟩ inStep stepped
      have moved := Service.act_moves stepped
      have books := books.wait moment.delay moment.elapsed
      have covered := covered.wait moment.delay moment.elapsed
      exact ⟨moved.books books, moved.covered books covered inStep⟩
  exact both.1.withinQuota both.2

instance (s : Service) (handler : Handler) : Decidable (s.Agrees handler) :=
  match handler with
  | .registering request token _ => inferInstanceAs (Decidable (
      s.Live ⟨request.key, token, request.principal⟩ →
        ∀ owner ∈ s.registry.holders request.key, owner = request.principal))
  | .freeing key _ => inferInstanceAs (Decidable (∀ grant ∈ s.grants, grant.key = key → ¬ s.Live grant))
  | .asking _ | .binding _ _ _ | .undoing _ _ _ | .unlocking _ _ | .forcing _ | .owing _ _
  | .answered _ => isTrue trivial

instance (s : Service) (moment : ServiceMoment) : Decidable (InStep s moment) :=
  match moment with
  | ⟨delay, elapsed, .register i⟩ | ⟨delay, elapsed, .remove i⟩ => inferInstanceAs (Decidable (
      ∀ handler ∈ s.handlers[i]?, (s.wait delay elapsed).Agrees handler))
  | ⟨_, _, .tryLock _⟩ | ⟨_, _, .acquire _ _⟩ | ⟨_, _, .abandon _ _⟩ | ⟨_, _, .stray _ _⟩
  | ⟨_, _, .late _⟩ | ⟨_, _, .giveUp _⟩ | ⟨_, _, .bind _⟩ | ⟨_, _, .undo _ _⟩ | ⟨_, _, .unlock _ _⟩
  | ⟨_, _, .unlockForce _⟩ | ⟨_, _, .extend _ _ _⟩ | ⟨_, _, .run _ _⟩ | ⟨_, _, .decrement _⟩
  | ⟨_, _, .session _⟩ | ⟨_, _, .release _ _⟩ => isTrue trivial

def Service.fresh : Service := ⟨0, fun _ => none, ⟨fun _ => none, fun _ => none⟩, .fresh, [], [], [], [], []⟩

theorem Service.fresh_initial (maxKeys : String → Nat) : (service maxKeys).initial .fresh :=
  ⟨rfl, Sessions.fresh_initial, rfl, rfl, rfl, rfl, rfl⟩

/-- A request without a session is served, as handler `i`. -/
def serve (delay i : Nat) (principal key token : String) (ttlMs : UInt64) : List ServiceMoment :=
  [⟨delay, 0, .tryLock ⟨principal, key, "", .fromMillis ttlMs, false⟩⟩, ⟨0, 0, .acquire i token⟩,
    ⟨0, 0, .bind i⟩, ⟨0, 0, .register i⟩]

/-- A principal with a quota of one gives its key back and gets another. -/
theorem second_key_within_quota : ∃ s : Service, s.WithinQuota (fun _ => 1) ∧ s.heldBy "p" = ["k1"] := by
  obtain ⟨s, reach, held⟩ := Machine.exists_reachableWhen InStep
    (fun s : Service => s.heldBy "p" = ["k1"]) (Service.fresh_initial fun _ => 1)
    (serve 0 0 "p" "k0" "a" 1000 ++ [⟨0, 0, .unlock "k0" "a"⟩, ⟨0, 0, .run 1 .executes⟩, ⟨0, 0, .remove 1⟩,
      ⟨0, 0, .decrement 1⟩] ++ serve 0 2 "p" "k1" "b" 1000)
    (by decide +kernel)
  exact ⟨s, held_within_quota reach, held⟩

/-- The registry still has the key for `q`, whose lock ran out. -/
theorem key_of_another_not_counted :
    ¬ ∀ s : Service, (service fun _ => 1).Reachable s → s.WithinQuota fun _ => 1 := by
  intro never
  obtain ⟨s, reach, held⟩ := Machine.exists_reachableWhen (fun _ _ => True)
    (fun s : Service => (s.heldBy "p").length = 2) (Service.fresh_initial fun _ => 1)
    (serve 0 0 "q" "k1" "a" 10 ++ serve 0 1 "p" "k0" "b" 1000 ++ serve 10 2 "p" "k1" "c" 1000)
    (by decide +kernel)
  have within : (s.heldBy "p").length ≤ 1 := never s reach "p" Nat.one_pos
  omega

end Palisade.Server
