import Palisade.Etcd.Cluster

/-! The grants of the etcd backend. Each key in the store belongs to the call that put it,
with a token and a lease that no other call has. -/
namespace Palisade.Etcd
open Transition

/-- The deletion is the own release of the call that put the key, or the end of its own
lease. -/
def Own (item : Item) : Cause → Prop
  | .released call | .revoked call => item.putBy = call
  | .expired lease => item.lease = lease

namespace Server
variable {server after : Server} {item : Item}

/-- Keys are unique; a key that was put is there or was deleted since; of two puts of one
key the earlier one was deleted in between; and fences grow. -/
structure Ledger (server : Server) : Prop where
  unique : ∀ item ∈ server.items, ∀ other ∈ server.items, item.key = other.key → item = other
  kept : ∀ newer older item fence instant, server.log = newer ++ .put item fence instant :: older →
    item ∈ server.items ∨ ∃ cause, .deleted item cause ∈ newer
  apart : ∀ newer middle older first second fence next instant later,
    server.log = newer ++ .put second next later :: (middle ++ .put first fence instant :: older) →
    (first.key = second.key → ∃ cause, .deleted first cause ∈ middle) ∧ fence < next
  bounded : ∀ item fence instant, .put item fence instant ∈ server.log → fence ≤ server.revision

namespace Ledger

/-- Neither keys nor log change. -/
theorem congr (ledger : server.Ledger) (items : after.items = server.items) (log : after.log = server.log)
    (revision : server.revision ≤ after.revision) : after.Ledger where
  unique := by
    rw [items]
    exact ledger.unique
  kept := by
    rw [items, log]
    exact ledger.kept
  apart := by
    rw [log]
    exact ledger.apart
  bounded item fence instant put := (ledger.bounded item fence instant (log ▸ put)).trans revision

theorem put (ledger : server.Ledger) (instant : Nat) (free : ∀ other ∈ server.items, other.key ≠ item.key) :
    (server.put instant item).Ledger where
  unique first left second right same := by
    obtain rfl | before := List.mem_cons.mp left
    · obtain rfl | there := List.mem_cons.mp right
      · rfl
      · exact absurd same.symm (free second there)
    · obtain rfl | there := List.mem_cons.mp right
      · exact absurd same (free first before)
      · exact ledger.unique first before second there same
  kept newer older other fence time split := by
    cases newer with
    | nil =>
      cases split
      exact .inl List.mem_cons_self
    | cons record newer =>
      obtain ⟨_, split⟩ := List.cons.inj split
      obtain here | ⟨cause, gone⟩ := ledger.kept newer older other fence time split
      · exact .inl (List.mem_cons_of_mem _ here)
      · exact .inr ⟨cause, List.mem_cons_of_mem _ gone⟩
  apart newer middle older first second fence next time later split := by
    cases newer with
    | nil =>
      obtain ⟨recorded, rest⟩ := List.cons.inj split
      cases recorded
      constructor
      · intro same
        exact (ledger.kept middle older first fence time rest).resolve_left fun here => free first here same
      · have known := ledger.bounded first fence time (by simp [rest])
        omega
    | cons record newer =>
      obtain ⟨_, split⟩ := List.cons.inj split
      exact ledger.apart newer middle older first second fence next time later split
  bounded other fence time recorded := by
    obtain here | before := List.mem_cons.mp recorded
    · cases here
      exact Nat.le_refl _
    · exact (ledger.bounded other fence time before).trans (Nat.le_succ _)

/-- Deletions at the front of the log hold no puts. -/
theorem split_deletions {items : List Item} {cause : Cause} {newer older log : List Record} {fence instant : Nat}
    (split : items.map (.deleted · cause) ++ log = newer ++ .put item fence instant :: older) :
    ∃ rest, newer = items.map (.deleted · cause) ++ rest ∧ log = rest ++ .put item fence instant :: older := by
  induction items generalizing newer with
  | nil => exact ⟨newer, rfl, split⟩
  | cons first items ih =>
    cases newer with
    | nil => cases split
    | cons record newer =>
      obtain ⟨rfl, tail⟩ := List.cons.inj split
      obtain ⟨rest, rfl, later⟩ := ih tail
      exact ⟨rest, rfl, later⟩

theorem delete (ledger : server.Ledger) (doomed : Item → Bool) (cause : Cause) :
    (server.delete doomed cause).Ledger where
  unique first left second right := ledger.unique first (List.mem_filter.mp left).1 second (List.mem_filter.mp right).1
  kept newer older item fence instant split := by
    obtain ⟨rest, rfl, before⟩ := split_deletions split
    obtain here | ⟨why, gone⟩ := ledger.kept rest older item fence instant before
    · cases selected : doomed item with
      | false => exact .inl (List.mem_filter.mpr ⟨here, by simp [selected]⟩)
      | true =>
        refine .inr ⟨cause, List.mem_append_left _ (List.mem_map.mpr ⟨item, ?_, rfl⟩)⟩
        exact List.mem_filter.mpr ⟨here, selected⟩
    · exact .inr ⟨why, List.mem_append_right _ gone⟩
  apart newer middle older first second fence next instant later split := by
    obtain ⟨rest, rfl, before⟩ := split_deletions split
    exact ledger.apart rest middle older first second fence next instant later before
  bounded item fence instant put := by
    have before : .put item fence instant ∈ server.log := by
      obtain deletion | before := List.mem_append.mp put
      · simp at deletion
      · exact before
    have bound := ledger.bounded item fence instant before
    simp only [Server.delete]
    split <;> omega

end Ledger

/-- Keys may go, for a reason of their own, and nothing comes. -/
structure Sheds (server after : Server) : Prop where
  items : after.items ⊆ server.items
  log : ∀ record ∈ after.log, record ∈ server.log ∨ ∃ item cause, record = .deleted item cause ∧ Own item cause
  older : server.log ⊆ after.log

theorem Sheds.delete {doomed : Item → Bool} {cause : Cause}
    (own : ∀ item ∈ server.items, doomed item = true → Own item cause) :
    Sheds server (server.delete doomed cause) where
  items _ member := (List.mem_filter.mp member).1
  log record member := by
    obtain new | old := List.mem_append.mp member
    · obtain ⟨item, selected, rfl⟩ := List.mem_map.mp new
      obtain ⟨here, selected⟩ := List.mem_filter.mp selected
      exact .inr ⟨item, cause, rfl, own item here selected⟩
    · exact .inl old
  older := List.subset_append_right _ _

end Server

namespace Cluster
variable {s t : Cluster} {i j : Nat} {call found : Call} {stage : Stage}

/-- What is behind a call after the stage of one changed. -/
theorem set_call (here : s.calls[i]? = some call) (there : (s.set i call stage).calls[j]? = some found) :
    ∃ old, s.calls[j]? = some old ∧ old.key = found.key ∧ old.token = found.token ∧ old.lease = found.lease ∧
      (found.stage = old.stage ∨ j = i ∧ old = call ∧ found.stage = stage) := by
  obtain ⟨rfl, rfl⟩ | ⟨_, before⟩ := set_eq_some here there
  · exact ⟨call, here, rfl, rfl, rfl, .inr ⟨rfl, rfl, rfl⟩⟩
  · exact ⟨found, before, rfl, rfl, rfl, .inl rfl⟩

theorem call_set (stage : Stage) (here : s.calls[i]? = some call) (there : s.calls[j]? = some found) :
    ∃ after, (s.set i call stage).calls[j]? = some after ∧ after.key = found.key ∧
      after.token = found.token ∧ after.lease = found.lease := by
  by_cases same : i = j
  · subst same
    obtain rfl := Option.some.inj (here.symm.trans there)
    exact ⟨_, List.getElem?_set_self (List.getElem?_eq_some_iff.mp here).1, rfl, rfl, rfl⟩
  · exact ⟨found, (List.getElem?_set_ne same).trans there, rfl, rfl, rfl⟩

/-- The key was put by the call, with its own token and lease. -/
def Owner (s : Cluster) (item : Item) : Prop :=
  ∃ call, s.calls[item.putBy]? = some call ∧ call.key = item.key ∧ call.token = item.value ∧
    call.lease = some item.lease

/-- Keys belong to the calls that put them, and no two calls share a token or a lease. -/
structure Inv (s : Cluster) : Prop where
  ledger : s.server.Ledger
  own : ∀ item cause, .deleted item cause ∈ s.server.log → Own item cause
  owned : ∀ item ∈ s.server.items, s.Owner item
  tokens : ∀ (i j : Nat) (first second : Call), s.calls[i]? = some first → s.calls[j]? = some second →
    first.token = second.token → i = j
  leases : ∀ (i j : Nat) (first second : Call) lease, s.calls[i]? = some first → s.calls[j]? = some second →
    first.lease = some lease → second.lease = some lease → i = j
  issued : ∀ (i : Nat) (call : Call) lease, s.calls[i]? = some call → call.lease = some lease → lease ∈ s.issued
  fenced : ∀ (i : Nat) (call : Call) fence, s.calls[i]? = some call → call.stage.fence? = some fence →
    Granted s.server i call.key fence
  unleased : ∀ (i : Nat) (call : Call), s.calls[i]? = some call → call.stage = .granting → call.lease = none

namespace Inv

/-- The server sheds keys; calls are as before. -/
theorem shed (inv : s.Inv) (calls : t.calls = s.calls) (issued : s.issued ⊆ t.issued)
    (ledger : t.server.Ledger) (sheds : s.server.Sheds t.server) : t.Inv where
  ledger := ledger
  own item cause deleted := by
    obtain before | ⟨gone, why, same, own⟩ := sheds.log _ deleted
    · exact inv.own item cause before
    · cases same
      exact own
  owned item member := by
    obtain ⟨call, here, rest⟩ := inv.owned item (sheds.items member)
    exact ⟨call, calls ▸ here, rest⟩
  tokens i j first second here there := inv.tokens i j first second (calls ▸ here) (calls ▸ there)
  leases i j first second lease here there := inv.leases i j first second lease (calls ▸ here) (calls ▸ there)
  issued i call lease here has := issued (inv.issued i call lease (calls ▸ here) has)
  fenced i call fence here staged := by
    obtain ⟨item, instant, put, rest⟩ := inv.fenced i call fence (calls ▸ here) staged
    exact ⟨item, instant, sheds.older put, rest⟩
  unleased i call here := inv.unleased i call (calls ▸ here)

/-- Nothing of the above changes. -/
theorem congr (inv : s.Inv) (calls : t.calls = s.calls) (issued : s.issued ⊆ t.issued)
    (items : t.server.items = s.server.items) (log : t.server.log = s.server.log)
    (revision : s.server.revision ≤ t.server.revision) : t.Inv := by
  refine inv.shed calls issued (inv.ledger.congr items log revision) ⟨?_, ?_, ?_⟩
  · exact items ▸ fun _ => id
  · exact log ▸ fun _ => .inl
  · exact log ▸ fun _ => id

theorem restage (inv : s.Inv) (here : s.calls[i]? = some call)
    (later : stage = .granting → call.stage = .granting)
    (fenced : ∀ fence, stage.fence? = some fence → call.stage.fence? = some fence ∨
      Granted s.server i call.key fence) : (s.set i call stage).Inv where
  ledger := inv.ledger
  own := inv.own
  owned item member := by
    obtain ⟨owner, there, key, token, lease⟩ := inv.owned item member
    obtain ⟨after, found, sameKey, sameToken, sameLease⟩ := call_set stage here there
    exact ⟨after, found, sameKey.trans key, sameToken.trans token, sameLease.trans lease⟩
  tokens := Distinct.set inv.tokens here rfl
  leases i j first second lease left right has likewise := by
    obtain ⟨old, before, _, _, sameLease, _⟩ := set_call here left
    obtain ⟨other, earlier, _, _, otherLease, _⟩ := set_call here right
    exact inv.leases i j old other lease before earlier (sameLease.trans has) (otherLease.trans likewise)
  issued j found lease there has := by
    obtain ⟨old, before, _, _, sameLease, _⟩ := set_call here there
    exact inv.issued j old lease before (sameLease.trans has)
  fenced j found fence there staged := by
    obtain ⟨old, before, key, _, _, kept | ⟨rfl, rfl, changed⟩⟩ := set_call here there
    · exact key ▸ inv.fenced j old fence before (kept ▸ staged)
    · rw [← key]
      obtain earlier | granted := fenced fence (changed ▸ staged)
      · exact inv.fenced j old fence before earlier
      · exact granted
  unleased j found there granting := by
    obtain ⟨old, before, _, _, lease, kept | ⟨_, rfl, changed⟩⟩ := set_call here there
    · exact lease ▸ inv.unleased j old before (kept ▸ granting)
    · exact lease ▸ inv.unleased j old before (later (changed.symm.trans granting))

theorem put (inv : s.Inv) (here : s.calls[i]? = some call) {lease : Int} (has : call.lease = some lease)
    (free : ∀ other ∈ s.server.items, other.key ≠ call.key) :
    Inv { s with server := s.server.put s.now (item i call lease) } where
  ledger := inv.ledger.put s.now free
  own other cause deleted := inv.own other cause ((List.mem_cons.mp deleted).resolve_left nofun)
  owned other member := by
    obtain rfl | before := List.mem_cons.mp member
    · exact ⟨call, here, rfl, rfl, has⟩
    · exact inv.owned other before
  tokens := inv.tokens
  leases := inv.leases
  issued := inv.issued
  fenced j found fence there staged := by
    obtain ⟨other, instant, put, rest⟩ := inv.fenced j found fence there staged
    exact ⟨other, instant, List.mem_cons_of_mem _ put, rest⟩
  unleased := inv.unleased

/-- A release deletes only the key that its own call put. -/
theorem release (inv : s.Inv) (here : s.calls[i]? = some call)
    (found : ∃ item ∈ s.server.items, item.key = call.key ∧ item.value = call.token) :
    Inv { s with server := s.server.delete (fun item => decide (item.key = call.key)) (.released i) } := by
  obtain ⟨found, member, key, token⟩ := found
  refine inv.shed rfl (List.Subset.refl _) (inv.ledger.delete _ _) (.delete fun item stored selected => ?_)
  have same := inv.ledger.unique item stored found member ((of_decide_eq_true selected).trans key.symm)
  subst same
  obtain ⟨owner, there, _, value, _⟩ := inv.owned item member
  exact inv.tokens item.putBy i owner call there here (value.trans token)

/-- A lease ends. -/
theorem drop (inv : s.Inv) {lease : Int} {cause : Cause}
    (own : ∀ item ∈ s.server.items, item.lease = lease → Own item cause) :
    Inv { s with server := s.server.drop lease cause } := by
  have ledger := inv.ledger.delete (fun item => decide (item.lease = lease)) cause
  have sheds : s.server.Sheds (s.server.delete (fun item => decide (item.lease = lease)) cause) :=
    .delete fun item member selected => own item member (of_decide_eq_true selected)
  exact inv.shed rfl (List.Subset.refl _) (ledger.congr rfl rfl (Nat.le_refl _))
    ⟨sheds.items, sheds.log, sheds.older⟩

/-- A revocation deletes only the key that its own call put. -/
theorem revoke (inv : s.Inv) (here : s.calls[i]? = some call) {lease : Int} (has : call.lease = some lease) :
    Inv { s with server := s.server.drop lease (.revoked i) } := by
  refine inv.drop fun item stored attached => ?_
  obtain ⟨owner, there, _, _, own⟩ := inv.owned item stored
  exact inv.leases item.putBy i owner call lease there here (own.trans (congrArg some attached)) has

theorem turn {server : Server} (inv : s.Inv) (turned : s.Turn server) : Inv { s with server } := by
  cases turned with
  | same => exact inv
  | write => exact inv.congr rfl (List.Subset.refl _) rfl rfl (Nat.le_succ _)
  | lease => exact inv.congr rfl (List.Subset.refl _) rfl rfl (Nat.le_refl _)
  | put here has asks free => exact inv.put here has free
  | release here asks found => exact inv.release here found
  | revoke here has => exact inv.revoke here has
  | expire => exact inv.drop fun _ _ attached => attached

theorem begin {key token : String} (inv : s.Inv) (fresh : ∀ call ∈ s.calls, call.token ≠ token) :
    Inv { s with calls := s.calls ++ [⟨key, token, none, .granting⟩] } where
  ledger := inv.ledger
  own := inv.own
  owned item member := by
    obtain ⟨owner, there, rest⟩ := inv.owned item member
    have inside := (List.getElem?_eq_some_iff.mp there).1
    exact ⟨owner, (List.getElem?_append_left inside).trans there, rest⟩
  tokens := Distinct.concat inv.tokens fresh
  leases i j first second lease left right has likewise := by
    obtain here | ⟨rfl, rfl⟩ := concat_eq_some left
    · obtain there | ⟨rfl, rfl⟩ := concat_eq_some right
      · exact inv.leases i j first second lease here there has likewise
      · cases likewise
    · cases has
  issued i call lease here has := by
    obtain before | ⟨rfl, rfl⟩ := concat_eq_some here
    · exact inv.issued i call lease before has
    · cases has
  fenced i call fence here staged := by
    obtain before | ⟨rfl, rfl⟩ := concat_eq_some here
    · exact inv.fenced i call fence before staged
    · cases staged
  unleased i call here granting := by
    obtain before | ⟨rfl, rfl⟩ := concat_eq_some here
    · exact inv.unleased i call before granting
    · rfl

/-- A call gets a lease of its own. -/
theorem grant {lease : Int} {seconds : Nat} (inv : s.Inv) (here : s.calls[i]? = some call)
    (granting : call.stage = .granting) (fresh : lease ∉ s.issued) : Inv { s with
      server := s.server.grant s.now lease seconds
      calls := s.calls.set i { call with lease := some lease, stage := .acquiring }
      issued := lease :: s.issued } where
  ledger := inv.ledger.congr rfl rfl (Nat.le_refl _)
  own := inv.own
  owned item member := by
    obtain ⟨owner, there, key, token, own⟩ := inv.owned item member
    have other : i ≠ item.putBy := by
      rintro rfl
      obtain rfl := Option.some.inj (here.symm.trans there)
      cases (inv.unleased _ call here granting).symm.trans own
    exact ⟨owner, (List.getElem?_set_ne other).trans there, key, token, own⟩
  tokens := Distinct.set inv.tokens here rfl
  leases j k first second other left right has likewise := by
    obtain ⟨rfl, rfl⟩ | ⟨_, before⟩ := set_eq_some here left
    · obtain ⟨rfl, rfl⟩ | ⟨_, earlier⟩ := set_eq_some here right
      · rfl
      · cases has
        exact absurd (inv.issued k second lease earlier likewise) fresh
    · obtain ⟨rfl, rfl⟩ | ⟨_, earlier⟩ := set_eq_some here right
      · cases likewise
        exact absurd (inv.issued j first lease before has) fresh
      · exact inv.leases j k first second other before earlier has likewise
  issued j found other there has := by
    obtain ⟨rfl, rfl⟩ | ⟨_, before⟩ := set_eq_some here there
    · cases has
      exact List.mem_cons_self
    · exact List.mem_cons_of_mem _ (inv.issued j found other before has)
  fenced j found fence there staged := by
    obtain ⟨rfl, rfl⟩ | ⟨_, before⟩ := set_eq_some here there
    · cases staged
    · exact inv.fenced j found fence before staged
  unleased j found there granting := by
    obtain ⟨rfl, rfl⟩ | ⟨_, before⟩ := set_eq_some here there
    · cases granting
    · exact inv.unleased j found before granting

theorem act {action : Action} (inv : s.Inv) (stepped : s.act action = some t) : t.Inv := by
  cases act_moves stepped with
  | outside turn calls issued => exact (inv.turn turn).congr calls issued rfl rfl (Nat.le_refl _)
  | begin fresh => exact inv.begin fresh
  | grant here granting fresh => exact inv.grant here granting fresh
  | advance here turn calls issued late time follows =>
    have after := (inv.turn turn).restage here follows.leased follows.fenced
    exact after.congr calls (issued ▸ List.Subset.refl _) rfl rfl (Nat.le_refl _)

end Inv

theorem inv_reachable (reach : cluster.Reachable s) : s.Inv := by
  refine reach.invariant ?_ fun s action t inv stepped => inv.act stepped
  rintro s ⟨items, log, calls, _⟩
  refine ⟨⟨?_, ?_, ?_, ?_⟩, ?_, ?_, ?_, ?_, ?_, ?_, ?_⟩
  all_goals simp [items, log, calls]

end Cluster

/-- In every run: of two grants the later one has the larger fence, and if they are of one
key, the key of the first was deleted in between; every deletion is by the release or the
revocation of the call that put the key, or by the end of its own lease; and the fence of
every handle is the revision at which its key was put. -/
theorem grants_apart {s : Cluster} (reach : cluster.Reachable s) :
    (∀ newer middle older first second fence next instant later,
      s.server.log = newer ++ .put second next later :: (middle ++ .put first fence instant :: older) →
      (first.key = second.key → ∃ cause, .deleted first cause ∈ middle) ∧ fence < next) ∧
    (∀ item cause, .deleted item cause ∈ s.server.log → Own item cause) ∧
    ∀ (i : Nat) (call : Call) fence, s.calls[i]? = some call → call.stage.fence? = some fence →
      ∃ item instant, .put item fence instant ∈ s.server.log ∧ item.putBy = i ∧ item.key = call.key := by
  have inv := Cluster.inv_reachable reach
  exact ⟨inv.ledger.apart, inv.own, inv.fenced⟩

def Cluster.empty : Cluster := ⟨0, ⟨0, [], fun _ => none, []⟩, [], [], []⟩

theorem Cluster.empty_initial : cluster.initial .empty := ⟨rfl, rfl, rfl, rfl⟩

/-- A key is granted, refused to a second call, released, and granted to a third. -/
theorem grants_apart_released : ∃ s : Cluster, ∃ cause, s.server.log =
      [.put ⟨"k", "c", 9, 2⟩ 3 0, .deleted ⟨"k", "a", 7, 0⟩ cause, .put ⟨"k", "a", 7, 0⟩ 1 0] ∧
    Own ⟨"k", "a", 7, 0⟩ cause ∧ 1 < 3 := by
  obtain ⟨s, reach, log⟩ := cluster.exists_reachableWhen (fun _ _ => True)
    (fun s : Cluster => s.server.log = [.put ⟨"k", "c", 9, 2⟩ 3 0,
      .deleted ⟨"k", "a", 7, 0⟩ (.released 0), .put ⟨"k", "a", 7, 0⟩ 1 0])
    Cluster.empty_initial
    [.begin "k" "a", .grant 0 7 10, .acquire 0, .begin "k" "b", .grant 1 8 10, .acquire 1, .revoke 1,
      .release 0, .releaseTxn 0, .revoke 0, .begin "k" "c", .grant 2 9 10, .acquire 2]
    (by decide)
  obtain ⟨apart, own, _⟩ := grants_apart reach
  obtain ⟨_, grows⟩ := apart [] [.deleted ⟨"k", "a", 7, 0⟩ (.released 0)] [] ⟨"k", "a", 7, 0⟩
    ⟨"k", "c", 9, 2⟩ 1 3 0 0 log
  exact ⟨s, .released 0, log, own _ _ (by simp [log]), grows⟩

end Palisade.Etcd
