import Palisade.Single.Exclusivity

/-! A fenced resource beside the mutex. The resource starts at fence 0 and
accepts a write only when its token supersedes the last one it accepted. Holders
may write at any time after their grant, however long ago their lease ended. -/
namespace Palisade.Single
open Redis Lease Transition

structure Grant where
  token : String
  fence : FencingToken
  deriving DecidableEq

/-- The grant an answer hands to the caller: `1 | 2` build a handle. -/
def Call.granted : Call → Except Fault (Nat × Int) → Option Grant
  | .acquire token _, .ok (1, fence) | .acquire token _, .ok (2, fence) =>
    some ⟨token, ⟨fence.toNat⟩⟩
  | _, _ => none

/-- The mutex, the grants made so far with the newest first, the resource and
the grants whose writes it accepted. -/
structure Fenced where
  mutex : Mutex
  grants : List Grant
  resource : Resource
  accepted : List Grant

inductive FencedAction where
  | call (action : Timed)
  | write (grant : Grant)
  deriving DecidableEq

def Fenced.call (key : String) (s : Fenced) (action : Timed) : Fenced :=
  let (reply, _) := (action.call.script key).exec (s.mutex.now + action.delay) s.mutex.db
  { s with
    mutex := s.mutex.exec key action
    grants := (action.call.granted reply).toList ++ s.grants }

def Fenced.write (s : Fenced) (grant : Grant) : Fenced :=
  match s.resource.write grant.fence with
  | some resource => { s with resource, accepted := grant :: s.accepted }
  | none => s

def fenced (key : String) : Machine Fenced FencedAction where
  initial s := (mutex key).initial s.mutex ∧ s.grants = [] ∧ s.resource = ⟨.zero⟩ ∧ s.accepted = []
  step s
    | .call action => some (s.call key action)
    | .write grant => if grant ∈ s.grants then some (s.write grant) else none

/-- Once a write of the newer of two grants was accepted, the older one's are not. -/
def Fenced.StaleRejected (s : Fenced) : Prop :=
  ∀ older newer : Grant, [newer, older].Sublist s.grants → newer ∈ s.accepted →
    s.resource.write older.fence = none

/-- A granting acquire finds the fence counter alive, unless no fence above 1
has been issued yet. -/
def Retained (key : String) (s : Fenced) : FencedAction → Prop
  | .call ⟨delay, .acquire token _⟩ =>
    let now := s.mutex.now + delay
    holder key s.mutex.db now = none ∨ holder key s.mutex.db now = some token →
      (s.mutex.db.lookup now (fenceKeyFor key)).isSome ∨ ∀ grant ∈ s.grants, grant.fence.value ≤ 1
  | _ => True

instance (key : String) (s : Fenced) (action : FencedAction) : Decidable (Retained key s action) :=
  match action with
  | .call ⟨_, .acquire _ _⟩ => inferInstanceAs (Decidable (_ ∨ _ → _ ∨ _))
  | .call ⟨_, .extend _ _⟩ | .call ⟨_, .release _⟩ | .write _ => isTrue trivial

variable {key : String} {db : Keyspace} {now : Nat} {call : Call} {grant : Grant} {entry : Entry}

/-- A call that grants is an acquire of a free lock or by its holder; it issues
the next fence, which is what the counter holds if it is kept. -/
theorem granted_spec (sound : Sound key db)
    (granted : call.granted ((call.script key).exec now db).1 = some grant) :
    ∃ token ttl, call = .acquire token ttl ∧
      (holder key db now = none ∨ holder key db now = some token) ∧
      grant = ⟨token, ⟨(nextFence (fenceKeyFor key) db now).toNat⟩⟩ ∧
      ∀ entry, ((call.script key).exec now db).2 (fenceKeyFor key) = some entry →
        entry.value = .string (.int (nextFence (fenceKeyFor key) db now)) := by
  cases call with
  | extend token ttl => simp [Call.granted] at granted
  | release token => simp [Call.granted] at granted
  | acquire token ttl =>
    by_cases zero : ttl = 0
    · simp [Call.script, exec_acquire, Call.granted, zero] at granted
    · rw [Call.script, sound.shaped.exec_acquire zero] at granted ⊢
      split at granted
      · rename_i admitted
        refine ⟨token, ttl, rfl, admitted, ?_, ?_⟩
        · by_cases free : holder key db now = none <;> simp_all [Call.granted]
        · intro entry stored
          simp only [if_pos admitted, Keyspace.refresh_self, Keyspace.refreshed_eq_some] at stored
          rw [stored.2]
      · simp [Call.granted] at granted

/-- Any other call keeps the counter's value or, at a zero retention, drops it. -/
theorem ungranted_counter (sound : Sound key db)
    (ungranted : call.granted ((call.script key).exec now db).1 = none)
    (stored : ((call.script key).exec now db).2 (fenceKeyFor key) = some entry) :
    ∃ old, db (fenceKeyFor key) = some old ∧ entry.value = old.value := by
  cases call with
  | acquire token ttl =>
    by_cases zero : ttl = 0
    · exact ⟨entry, by simpa [Call.script, exec_acquire, zero] using stored, rfl⟩
    · rw [Call.script, sound.shaped.exec_acquire zero] at ungranted stored
      split at ungranted
      · by_cases free : holder key db now = none <;> simp_all [Call.granted]
      · rw [if_neg ‹_›] at stored
        exact ⟨entry, stored, rfl⟩
  | extend token ttl =>
    simp only [Call.script, Script.exec_bind, sound.shaped.exec_extend] at stored
    split_ifs at stored
    · have untouched (value : Value) : (db.refresh now key value ttl) (fenceKeyFor key) =
          db (fenceKeyFor key) := Keyspace.refresh_of_ne (fenceKeyFor_ne key)
      simp only [Script.exec_pexpire, Keyspace.lookup_congr (untouched _), Script.exec_pure] at stored
      split at stored
      · exact ⟨entry, (untouched _).symm.trans stored, rfl⟩
      · rename_i old found
        simp only [Keyspace.refresh_self] at stored
        obtain ⟨_, rfl⟩ := Keyspace.refreshed_eq_some.mp stored
        exact ⟨old, (Keyspace.lookup_eq_some.mp found).1, rfl⟩
    · exact ⟨entry, stored, rfl⟩
  | release token =>
    simp only [Call.script, Script.exec_bind, sound.shaped.exec_release] at stored
    split_ifs at stored
    · exact ⟨entry, by simpa only [Script.exec_pure, Keyspace.erase_of_ne (fenceKeyFor_ne key)]
        using stored, rfl⟩
    · exact ⟨entry, stored, rfl⟩

/-- Fences never decrease in grant order, the counter (alive or lapsed) is not
below any of them, and neither is the resource below what it accepted. -/
structure Fenced.Inv (key : String) (s : Fenced) : Prop where
  mutex : s.mutex.Inv key
  ordered : s.grants.Pairwise fun newer older => older.fence.value ≤ newer.fence.value
  counter : ∀ fence stop, s.mutex.db (fenceKeyFor key) = some ⟨.string (.int fence), stop⟩ →
    ∀ grant ∈ s.grants, grant.fence.value ≤ fence.toNat
  accepted : ∀ grant ∈ s.accepted, grant.fence.value ≤ s.resource.last.value

/-- Where the counter is retained, the next fence is not below any issued one. -/
theorem nextFence_bounds {s : Fenced} (inv : s.Inv key)
    (retained : (s.mutex.db.lookup now (fenceKeyFor key)).isSome ∨
      ∀ grant ∈ s.grants, grant.fence.value ≤ 1) :
    ∀ grant ∈ s.grants, grant.fence.value ≤ (nextFence (fenceKeyFor key) s.mutex.db now).toNat := by
  intro grant issued
  unfold nextFence
  cases found : s.mutex.db.lookup now (fenceKeyFor key) with
  | none =>
    simp only [found, Option.isSome_none, Bool.false_eq_true, false_or] at retained
    simpa using retained grant issued
  | some entry =>
    obtain ⟨stored, _⟩ := Keyspace.lookup_eq_some.mp found
    obtain ⟨fence, stop, rfl⟩ := inv.mutex.sound.counter entry stored
    have below := inv.counter fence _ stored grant issued
    simp only
    omega

theorem Fenced.Inv.exec_call {s : Fenced} (inv : s.Inv key) (action : Timed)
    (retained : Retained key s (.call action)) : (s.call key action).Inv key := by
  obtain ⟨delay, call⟩ := action
  cases granted : call.granted ((call.script key).exec (s.mutex.now + delay) s.mutex.db).1 with
  | none =>
    have same : (s.call key ⟨delay, call⟩).grants = s.grants := by
      simp [Fenced.call, granted]
    refine ⟨inv.mutex.exec _, by rw [same]; exact inv.ordered, ?_, inv.accepted⟩
    intro fence stop stored grant issued
    obtain ⟨old, kept, value⟩ := ungranted_counter inv.mutex.sound granted stored
    obtain ⟨_, oldStop⟩ := old
    subst value
    exact inv.counter fence oldStop kept grant (same ▸ issued)
  | some grant =>
    have added : (s.call key ⟨delay, call⟩).grants = grant :: s.grants := by
      simp [Fenced.call, granted]
    obtain ⟨token, ttl, rfl, admitted, rfl, issued⟩ := granted_spec inv.mutex.sound granted
    have bounds := nextFence_bounds inv (retained admitted)
    refine ⟨inv.mutex.exec _, ?_, ?_, inv.accepted⟩
    · rw [added]
      exact List.pairwise_cons.mpr ⟨bounds, inv.ordered⟩
    · intro fence last stored
      rw [added]
      cases issued _ stored
      exact List.forall_mem_cons.mpr ⟨le_rfl, bounds⟩

theorem Fenced.Inv.exec_write {s : Fenced} (inv : s.Inv key) (grant : Grant) : (s.write grant).Inv key := by
  unfold Fenced.write
  cases written : s.resource.write grant.fence with
  | none => exact inv
  | some resource =>
    simp only [Resource.write] at written
    split at written
    · cases written
      have newer := FencingToken.supersedes_iff.mp ‹_›
      refine ⟨inv.mutex, inv.ordered, inv.counter, List.forall_mem_cons.mpr ⟨le_rfl, ?_⟩⟩
      intro old accepted
      exact (inv.accepted old accepted).trans newer.le
    · contradiction

theorem Fenced.inv_reachable {s : Fenced} (reach : (fenced key).ReachableWhen (Retained key) s) :
    s.Inv key := by
  refine Machine.ReachableWhen.invariant ?_ ?_ reach
  · rintro s ⟨start, grants, resource, accepted⟩
    refine ⟨Mutex.inv_reachable (.initial start), ?_, ?_, ?_⟩ <;> simp [grants, accepted]
  · intro s action t inv retained stepped
    cases action with
    | call action =>
      cases stepped
      exact inv.exec_call action retained
    | write grant =>
      simp only [fenced] at stepped
      split at stepped
      · cases stepped
        exact inv.exec_write grant
      · contradiction

/-- Fencing keeps a stale holder out, however long it paused, in every run whose
grants all find the counter retained. -/
theorem stale_fence_rejected {s : Fenced} (reach : (fenced key).ReachableWhen (Retained key) s) :
    s.StaleRejected := by
  have inv := Fenced.inv_reachable reach
  intro older newer order accepted
  have ordered : older.fence.value ≤ newer.fence.value := by
    simpa using inv.ordered.sublist order
  have recorded := inv.accepted newer accepted
  exact Resource.write_eq_none.mpr (ordered.trans recorded)

def Fenced.start : Fenced := ⟨⟨0, fun _ => none, fun _ => none⟩, [], ⟨.zero⟩, []⟩

theorem Fenced.start_initial (key : String) : (fenced key).initial .start :=
  ⟨⟨rfl, rfl, rfl⟩, rfl, rfl, rfl⟩

/-- Two grants a second apart keep their order. -/
theorem stale_fence_rejected_retained : ∃ s : Fenced, s.StaleRejected ∧
    [⟨"b", ⟨2⟩⟩, ⟨"a", ⟨1⟩⟩].Sublist s.grants ∧ (⟨"b", ⟨2⟩⟩ : Grant) ∈ s.accepted := by
  obtain ⟨s, reach, facts⟩ := Machine.exists_reachableWhen (Retained "orders")
    (fun s : Fenced => [⟨"b", ⟨2⟩⟩, ⟨"a", ⟨1⟩⟩].Sublist s.grants ∧ (⟨"b", ⟨2⟩⟩ : Grant) ∈ s.accepted)
    (Fenced.start_initial "orders")
    [.call ⟨0, .acquire "a" 1000⟩, .call ⟨1000, .acquire "b" 1000⟩, .write ⟨"b", ⟨2⟩⟩]
    (by decide)
  exact ⟨s, stale_fence_rejected reach, facts⟩

/-- A holder `a` with fence 2 pauses past the counter's retention. The next
grant restarts the counter at 1; once the resource has accepted that write it
still accepts the one `a` had not made yet. -/
theorem stale_fence_accepted_after_lapse :
    ¬ ∀ s, (fenced "orders").Reachable s → s.StaleRejected := by
  intro always
  obtain ⟨s, reach, order, accepted, taken⟩ := Machine.exists_reachableWhen (fun _ _ => True)
    (fun s : Fenced => [⟨"b", ⟨1⟩⟩, ⟨"a", ⟨2⟩⟩].Sublist s.grants ∧ (⟨"b", ⟨1⟩⟩ : Grant) ∈ s.accepted ∧
      s.resource.write ⟨2⟩ ≠ none)
    (Fenced.start_initial "orders")
    [.call ⟨0, .acquire "z" 1000⟩, .call ⟨0, .release "z"⟩, .call ⟨0, .acquire "a" 1000⟩,
      .call ⟨20000, .acquire "b" 1000⟩, .write ⟨"b", ⟨1⟩⟩]
    (by decide)
  exact taken (always s reach ⟨"a", ⟨2⟩⟩ ⟨"b", ⟨1⟩⟩ order accepted)

end Palisade.Single
