import Palisade.Server.Quota

/-! Quota slots that are given back. Every slot in the registry stands for a live lock, or for
a release on its way to the registry, for as long as locks with a slot end in no other
way. -/
namespace Palisade.Server
open Redis Single Transition

/-- The request, if it runs, ends the lock. -/
def Stray.Hits (grant : Grant) : Stray → Prop
  | .acquire _ _ => False
  | .release key token => grant.key = key ∧ grant.token = token
  | .del key => grant.key = key

namespace Service
variable {maxKeys : String → Nat} {s t : Service} {action : ServiceAction}

/-- A live lock that has its slot. -/
def Occupies (s : Service) (grant : Grant) : Prop :=
  s.registry.holders grant.key = some grant.principal ∧ s.Live grant

/-- A release is going to take the key out of the registry. -/
def Freeing (s : Service) (key : String) : Prop := ∃ handler ∈ s.handlers, handler.frees = some key

def Backed (s : Service) : Prop := ∀ key principal, s.registry.holders key = some principal →
  (∃ grant ∈ s.grants, grant.key = key ∧ grant.principal = principal ∧ s.Live grant) ∨ s.Freeing key

/-- A lock enters the registry only while it is held, and a principal is refused only when no
release of a key of its is between Redis and its count. -/
def Ready (maxKeys : String → Nat) (s : Service) : Handler → Prop
  | .registering request token _ => s.registry.holders request.key = none →
      if s.registry.Full request.principal (maxKeys request.principal) then
        ∀ handler ∈ s.handlers, handler.owes ≠ some request.principal ∧
          ∀ key ∈ handler.frees, s.registry.holders key ≠ some request.principal
      else s.Live ⟨request.key, token, request.principal⟩
  | _ => True

/-- No lock with a slot ends without an `Unlock` or `UnlockForce` that sees it end. An
extension ends one where its lease, or the tenfold of it, comes out as 0. -/
def Spares (maxKeys : String → Nat) (s : Service) : ServiceAction → Prop
  | .register i => ∀ handler ∈ s.handlers[i]?, s.Ready maxKeys handler
  | .release task fate => fate = .executes → ∀ lock ∈ s.nextRelease task, ∀ grant ∈ s.grants,
      s.Occupies grant → ¬ Stray.Hits grant (.release lock.1 lock.2)
  | .late j => ∀ stray ∈ s.strays[j]?, ∀ grant ∈ s.grants, s.Occupies grant → ¬ Stray.Hits grant stray
  | .extend _ _ ttl => fenceTtlMs ttl.asMillisU64 ≠ 0
  | _ => True

theorem freeing_set {handlers : List Handler} {handler next : Handler} {i : Nat} {key : String}
    (here : handlers[i]? = some handler) (other : handler.frees ≠ some key)
    (freeing : ∃ handler ∈ handlers, handler.frees = some key) :
    ∃ handler ∈ handlers.set i next, handler.frees = some key := by
  obtain ⟨found, member, frees⟩ := freeing
  obtain ⟨j, there⟩ := List.mem_iff_getElem?.mp member
  have elsewhere : i ≠ j := by
    rintro rfl
    obtain rfl := Option.some.inj (here.symm.trans there)
    exact other frees
  rw [← List.getElem?_set_ne elsewhere] at there
  exact ⟨found, List.mem_of_getElem? there, frees⟩

/-- A release on its way stays so until it takes its key out. -/
theorem Moves.freeing {key : String} (moved : s.Moves maxKeys action t) (freeing : s.Freeing key) :
    t.Freeing key ∨ t.registry.holders key = none := by
  cases moved with
  | enter blank =>
    obtain ⟨handler, member, frees⟩ := freeing
    exact .inl ⟨handler, List.mem_append_left _ member, frees⟩
  | goOn book left here quiet => exact .inl (freeing_set here (by simp [quiet.frees]) freeing)
  | session | stray | release | lateRelease | lateDel | extend => exact .inl freeing
  | acquire here | tracked here | inserted here | refused _ here | undo _ here | decrement here =>
    exact .inl (freeing_set here nofun freeing)
  | freed left here blank free => exact .inl (freeing_set here (by simp [free]) freeing)
  | @removed i name owner answer here | @missing i name answer here =>
    by_cases same : name = key
    · subst same
      exact .inr HeldRegistry.removeHolder_self
    · exact .inl (freeing_set here (by simpa [Handler.frees] using same) freeing)

/-- A live lock with a slot stays live, or the release that ended it is on its way. -/
theorem Moves.live_after {grant : Grant} (moved : s.Moves maxKeys action t) (books : s.Books maxKeys)
    (spares : s.Spares maxKeys action) (member : grant ∈ s.grants) (occupies : s.Occupies grant) :
    t.Live grant ∨ t.Freeing grant.key := by
  have live : holder grant.key s.db s.now = some grant.token := occupies.2
  have minted := books.tokens.granted grant member
  cases moved with
  | enter | goOn | session | tracked | inserted | refused | removed | missing | decrement =>
    exact .inl live
  | acquire here fresh =>
    exact .inl ((holder_acquireOn (ne_of_mem_of_not_mem minted fresh)).mpr live)
  | stray left fresh =>
    exact .inl ((holder_acquireOn (ne_of_mem_of_not_mem minted fresh)).mpr live)
  | @undo i fate request token status left here =>
    have foreign := books.tokens.apart i token ⟨_, here, rfl⟩ grant member
    exact .inl ((holder_unlock fate).mpr ⟨live, fun _ same => foreign same.2⟩)
  | @freed i fate handler key answer after left here blank free ends =>
    by_cases same : grant.key = key
    · have inside := (List.getElem?_eq_some_iff.mp here).1
      exact .inr ⟨.freeing key answer, List.mem_set inside _, same ▸ rfl⟩
    · exact .inl ((ends _ _).mpr ⟨live, same⟩)
  | @release task fate key token book left next =>
    exact .inl ((holder_unlock fate).mpr ⟨live, fun executes => spares executes _ next grant member occupies⟩)
  | lateRelease left found =>
    exact .inl ((holder_unlock _).mpr ⟨live, fun _ => spares _ found grant member occupies⟩)
  | lateDel left found ends =>
    exact .inl ((ends _ _).mpr ⟨live, spares _ found grant member occupies⟩)
  | @extend key token ttl =>
    have lease : ttl.asMillisU64 ≠ 0 := by
      intro zero
      exact spares (by rw [zero]; rfl)
    exact .inl (holder_extend_other.2 lease spares live)

theorem Moves.grants_subset (moved : s.Moves maxKeys action t) : s.grants ⊆ t.grants := by
  cases moved with
  | tracked | inserted => exact List.subset_cons_self _ _
  | _ => exact List.Subset.refl _

/-- A slot was there before, or it is that of a live lock granted by this step. -/
theorem Moves.slot {key principal : String} (moved : s.Moves maxKeys action t)
    (spares : s.Spares maxKeys action) (slot : t.registry.holders key = some principal) :
    s.registry.holders key = some principal ∨
      ∃ grant ∈ t.grants, grant.key = key ∧ grant.principal = principal ∧ t.Live grant := by
  cases moved with
  | @inserted i request token fence here free room =>
    obtain ⟨rfl, same⟩ | ⟨_, before⟩ := update_eq_some slot
    · have ready := spares _ here free
      rw [if_neg room] at ready
      exact .inr ⟨_, List.mem_cons_self, rfl, Option.some.inj same, ready⟩
    · exact .inl before
  | removed here | missing here =>
    obtain ⟨_, gone⟩ | ⟨_, before⟩ := update_eq_some slot
    · contradiction
    · exact .inl before
  | decrement here =>
    rw [HeldRegistry.decrement_holders] at slot
    exact .inl slot
  | _ => exact .inl slot

theorem Moves.backed (moved : s.Moves maxKeys action t) (books : s.Books maxKeys)
    (spares : s.Spares maxKeys action) (backed : s.Backed) : t.Backed := by
  intro key principal slot
  obtain before | granted := moved.slot spares slot
  · obtain ⟨grant, member, rfl, rfl, live⟩ | freeing := backed key principal before
    · obtain live | freeing := moved.live_after books spares member ⟨before, live⟩
      · exact .inl ⟨grant, moved.grants_subset member, rfl, rfl, live⟩
      · exact .inr freeing
    · obtain freeing | gone := moved.freeing freeing
      · exact .inr freeing
      · rw [gone] at slot
        contradiction
  · exact .inl granted

/-- Principals were refused only while they held as many keys as their quota. -/
def RefusedAtQuota (maxKeys : String → Nat) (s : Service) : Prop :=
  ∀ refusal ∈ s.refusals, maxKeys refusal.principal ≤ refusal.held

/-- With no release under way, a full count is a count of live locks. -/
theorem Backed.full {principal : String} (backed : s.Backed) (books : s.Books maxKeys)
    (full : s.registry.Full principal (maxKeys principal))
    (idle : ∀ handler ∈ s.handlers, handler.owes ≠ some principal ∧
      ∀ key ∈ handler.frees, s.registry.holders key ≠ some principal) :
    maxKeys principal ≤ (s.heldBy principal).length := by
  obtain ⟨keys, nodup, mapped, counted⟩ := books.tallied principal
  have settled : Handler.owed s.handlers principal = 0 := by
    refine List.countP_eq_zero.mpr fun handler member => ?_
    simpa only [decide_eq_true_eq] using (idle handler member).1
  have held : keys ⊆ s.heldBy principal := by
    intro key member
    have slot := (mapped key).mp member
    obtain granted | ⟨handler, member, frees⟩ := backed key principal slot
    · exact mem_heldBy.mpr granted
    · exact absurd slot ((idle handler member).2 key frees)
  calc maxKeys principal
      ≤ s.registry.count principal := full.2
    _ = keys.length := by rw [counted, settled, Nat.add_zero]
    _ ≤ (s.heldBy principal).length := nodup.length_le_of_subset held

theorem Moves.refusals (moved : s.Moves maxKeys action t) (books : s.Books maxKeys)
    (spares : s.Spares maxKeys action) (backed : s.Backed) (honest : s.RefusedAtQuota maxKeys) :
    t.RefusedAtQuota maxKeys := by
  cases moved with
  | refused status here free full =>
    have idle := spares _ here free
    rw [if_pos full] at idle
    intro refusal member
    obtain rfl | member := List.mem_cons.mp member
    · exact backed.full books full idle
    · exact honest refusal member
  | _ => exact honest

end Service

/-- No lock with a slot runs out before the step, and none is ended by it unseen. -/
def Seen (maxKeys : String → Nat) (s : Service) (moment : ServiceMoment) : Prop :=
  (∀ grant ∈ s.grants, s.Occupies grant → (s.wait moment.delay moment.elapsed).Live grant) ∧
    (s.wait moment.delay moment.elapsed).Spares maxKeys moment.action

theorem Service.Backed.wait {s : Service} {maxKeys : String → Nat} {moment : ServiceMoment}
    (backed : s.Backed) (seen : Seen maxKeys s moment) : (s.wait moment.delay moment.elapsed).Backed := by
  intro key principal slot
  obtain ⟨grant, member, rfl, rfl, live⟩ | freeing := backed key principal slot
  · exact .inl ⟨grant, member, rfl, rfl, seen.1 grant member ⟨slot, live⟩⟩
  · exact .inr freeing

/-- In every run in which locks with a slot end only by an `Unlock` or `UnlockForce` that
sees them end, principals are refused only while they hold their quota of live locks. -/
theorem refused_at_quota {maxKeys : String → Nat} {s : Service}
    (reach : (service maxKeys).ReachableWhen (Seen maxKeys) s) : s.RefusedAtQuota maxKeys := by
  have all : s.Books maxKeys ∧ s.Backed ∧ s.RefusedAtQuota maxKeys := by
    refine reach.invariant
      (P := fun s => s.Books maxKeys ∧ s.Backed ∧ s.RefusedAtQuota maxKeys) ?_ ?_
    · intro s first
      refine ⟨Service.books_initial first, ?_⟩
      obtain ⟨registry, _, _, _, _, _, refusals⟩ := first
      simp [Service.Backed, Service.RefusedAtQuota, registry, refusals]
    · rintro s moment t ⟨books, backed, honest⟩ seen stepped
      have moved := Service.act_moves stepped
      have books := books.wait moment.delay moment.elapsed
      have backed := backed.wait seen
      exact ⟨moved.books books, moved.backed books seen.2 backed, moved.refusals books seen.2 backed honest⟩
  exact all.2.2

instance (s : Service) (grant : Grant) : Decidable (s.Occupies grant) :=
  inferInstanceAs (Decidable (_ ∧ _))

instance (grant : Grant) (stray : Stray) : Decidable (stray.Hits grant) :=
  match stray with
  | .acquire _ _ => isFalse nofun
  | .release _ _ => inferInstanceAs (Decidable (_ ∧ _))
  | .del _ => inferInstanceAs (Decidable (_ = _))

instance (maxKeys : String → Nat) (s : Service) (handler : Handler) : Decidable (s.Ready maxKeys handler) :=
  match handler with
  | .registering request token _ => inferInstanceAs (Decidable (
      s.registry.holders request.key = none →
        if s.registry.Full request.principal (maxKeys request.principal) then
          ∀ handler ∈ s.handlers, handler.owes ≠ some request.principal ∧
            ∀ key ∈ handler.frees, s.registry.holders key ≠ some request.principal
        else s.Live ⟨request.key, token, request.principal⟩))
  | .asking _ | .binding _ _ _ | .undoing _ _ _ | .unlocking _ _ | .forcing _ | .freeing _ _ | .owing _ _
  | .answered _ => isTrue trivial

instance (maxKeys : String → Nat) (s : Service) (action : ServiceAction) :
    Decidable (s.Spares maxKeys action) :=
  match action with
  | .register i => inferInstanceAs (Decidable (∀ handler ∈ s.handlers[i]?, s.Ready maxKeys handler))
  | .release task fate => inferInstanceAs (Decidable (fate = .executes → ∀ lock ∈ s.nextRelease task,
      ∀ grant ∈ s.grants, s.Occupies grant → ¬ Stray.Hits grant (.release lock.1 lock.2)))
  | .late j => inferInstanceAs (Decidable (∀ stray ∈ s.strays[j]?, ∀ grant ∈ s.grants,
      s.Occupies grant → ¬ Stray.Hits grant stray))
  | .extend _ _ _ => inferInstanceAs (Decidable (_ ≠ _))
  | .tryLock _ | .acquire _ _ | .abandon _ _ | .stray _ _ | .giveUp _ | .bind _ | .undo _ _ | .unlock _ _
  | .unlockForce _ | .run _ _ | .remove _ | .decrement _ | .session _ => isTrue trivial

instance (maxKeys : String → Nat) (s : Service) (moment : ServiceMoment) :
    Decidable (Seen maxKeys s moment) :=
  inferInstanceAs (Decidable (_ ∧ _))

/-- A principal is refused its second key, gives the first one back and gets the second. -/
theorem refused_then_served : ∃ s : Service, s.RefusedAtQuota (fun _ => 1) ∧
    s.refusals = [⟨"p", 1⟩] ∧ s.heldBy "p" = ["k1"] := by
  obtain ⟨s, reach, found⟩ := Machine.exists_reachableWhen (Seen fun _ => 1)
    (fun s : Service => s.refusals = [⟨"p", 1⟩] ∧ s.heldBy "p" = ["k1"])
    (Service.fresh_initial fun _ => 1)
    (serve 0 0 "p" "k0" "a" 1000 ++ serve 5 1 "p" "k1" "b" 1000 ++ [⟨0, 0, .undo 1 .executes⟩,
      ⟨0, 0, .unlock "k0" "a"⟩, ⟨0, 0, .run 2 .executes⟩, ⟨0, 0, .remove 2⟩, ⟨0, 0, .decrement 2⟩] ++
      serve 5 3 "p" "k1" "c" 1000)
    (by decide +kernel)
  exact ⟨s, refused_at_quota reach, found⟩

/-- The registry is not told that a lock ran out. -/
theorem refused_without_a_lock :
    ¬ ∀ s : Service, (service fun _ => 1).Reachable s → s.RefusedAtQuota fun _ => 1 := by
  intro never
  obtain ⟨s, reach, refused⟩ := Machine.exists_reachableWhen (fun _ _ => True)
    (fun s : Service => s.refusals = [⟨"p", 0⟩]) (Service.fresh_initial fun _ => 1)
    (serve 0 0 "p" "k0" "a" 10 ++ serve 10 1 "p" "k1" "b" 1000)
    (by decide +kernel)
  have full : 1 ≤ 0 := never s reach ⟨"p", 0⟩ (by simp [refused])
  contradiction

end Palisade.Server
