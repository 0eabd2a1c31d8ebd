import Mathlib.Data.Set.Lattice
import Mathlib.Order.CompletePartialOrder
import Palisade.Fair.Handles
import Palisade.Single.Testament

/-! The names that the library derives from a lock key, by concatenation in several modules,
and what the operations on one key do to those of another. Keys are any texts. The names
next to two keys never meet: behind its last colon each of them shows what it is for. Only
a key that is itself such a name of the other can be in the way. -/
namespace Palisade.Names
open Redis Single Fair Semantic Testament

/-- The identity of one acquisition, a UUID. -/
structure OwnerId where
  uuid : BitVec 128
  deriving DecidableEq

/-- The low digits of a number, in lower case. -/
def hexDigits : Nat → Nat → List Char
  | 0, _ => []
  | width + 1, value => hexDigits width (value / 16) ++ [(value % 16).digitChar]

/-- `as_uuid().to_string()`: the hyphenated form. -/
def OwnerId.token (owner : OwnerId) : String :=
  let value := owner.uuid.toNat
  String.ofList (hexDigits 8 (value / 16 ^ 24) ++ '-' :: (hexDigits 4 (value / 16 ^ 20) ++
    '-' :: (hexDigits 4 (value / 16 ^ 16) ++ '-' :: (hexDigits 4 (value / 16 ^ 12) ++ '-' :: hexDigits 12 value))))

theorem length_hexDigits (width value : Nat) : (hexDigits width value).length = width := by
  induction width generalizing value with
  | zero => rfl
  | succ width ih => simp [hexDigits, ih]

theorem colon_hexDigits (width value : Nat) : ':' ∉ hexDigits width value := by
  have digits : ∀ digit : Fin 16, ':' ≠ Nat.digitChar digit := by decide
  induction width generalizing value with
  | zero => nofun
  | succ width ih =>
    have last := digits ⟨value % 16, Nat.mod_lt _ (by decide)⟩
    simp [hexDigits, ih, last]

theorem OwnerId.length_token (owner : OwnerId) : owner.token.toList.length = 36 := by
  simp [OwnerId.token, length_hexDigits]

theorem OwnerId.colon_token (owner : OwnerId) : ':' ∉ owner.token.toList := by
  simp [OwnerId.token, colon_hexDigits]

/-- The names next to a lock key. -/
inductive Auxiliary where
  | fence
  | queue
  | heartbeat (owner : OwnerId)
  | will
  | data
  deriving DecidableEq

namespace Auxiliary

def name (key : String) : Auxiliary → String
  | .fence => fenceKeyFor key
  | .queue => queueKeyFor key
  | .heartbeat owner => hbKeyFor key owner.token
  | .will => willKeyFor key
  | .data => dataKeyFor key

/-- What comes before the last colon of the name. -/
def stem (key : String) : Auxiliary → List Char
  | .fence | .queue => '\x7b' :: (key.toList ++ ['\x7d'])
  | .heartbeat _ => '\x7b' :: (key.toList ++ ['\x7d', ':', 'h', 'b'])
  | .will | .data => key.toList

/-- What comes after it. -/
def tail : Auxiliary → List Char
  | .fence => "fence".toList
  | .queue => "q".toList
  | .heartbeat owner => owner.token.toList
  | .will => "will".toList
  | .data => "data".toList

theorem toList_name (key : String) (auxiliary : Auxiliary) :
    (auxiliary.name key).toList = auxiliary.stem key ++ ':' :: auxiliary.tail := by
  cases auxiliary with
  | fence => simp [name, stem, tail, fenceKeyFor]
  | queue => simp [name, stem, tail, queueKeyFor]
  | heartbeat owner => simp [name, stem, tail, hbKeyFor, hbPrefixFor]
  | will => simp [name, stem, tail, willKeyFor]
  | data => simp [name, stem, tail, dataKeyFor]

theorem colon_tail (auxiliary : Auxiliary) : ':' ∉ auxiliary.tail := by
  cases auxiliary with
  | heartbeat owner => exact owner.colon_token
  | fence | queue | will | data => simp [tail]

end Auxiliary

/-- A text splits at its last colon in one way. -/
theorem split_colon {first second left right : List Char} (same : first ++ ':' :: left = second ++ ':' :: right)
    (noLeft : ':' ∉ left) (noRight : ':' ∉ right) : first = second ∧ left = right := by
  obtain ⟨between, rfl, rest⟩ | ⟨between, rfl, rest⟩ := List.append_eq_append_iff.mp same
  · cases between with
    | nil => exact ⟨(List.append_nil _).symm, (List.cons.inj rest).2⟩
    | cons letter between =>
      obtain ⟨_, rfl⟩ := List.cons.inj rest
      simp at noLeft
  · cases between with
    | nil => exact ⟨List.append_nil _, (List.cons.inj rest).2.symm⟩
    | cons letter between =>
      obtain ⟨_, rfl⟩ := List.cons.inj rest
      simp at noRight

/-- No token is one of the words behind the other names. -/
theorem OwnerId.token_ne {owner : OwnerId} {word : String} (short : word.toList.length < 36) :
    owner.token.toList ≠ word.toList := by
  intro same
  have long := owner.length_token
  rw [same] at long
  omega

theorem Auxiliary.key_of_stem {left right : Auxiliary} {first second : String} (stems : left.stem first = right.stem second)
    (tails : left.tail = right.tail) : first = second := by
  apply String.toList_inj.mp
  cases left with
  | heartbeat owner =>
    cases right with
    | heartbeat other => simpa [stem] using stems
    | fence | queue | will | data => exact absurd tails (owner.token_ne (by decide))
  | fence | queue | will | data =>
    cases right with
    | heartbeat other => exact absurd tails.symm (other.token_ne (by decide))
    | fence | queue | will | data => simp_all [stem, tail]

/-- Names next to two different keys are different. -/
theorem Auxiliary.key_of_name {left right : Auxiliary} {first second : String}
    (same : left.name first = right.name second) : first = second := by
  have letters := congrArg String.toList same
  rw [toList_name, toList_name] at letters
  obtain ⟨stems, tails⟩ := split_colon letters left.colon_tail right.colon_tail
  exact key_of_stem stems tails

/-- The names that are derived from a key: itself and those next to it. -/
def derived (key : String) : Set String := {name | name = key ∨ ∃ auxiliary : Auxiliary, name = auxiliary.name key}

theorem mem_derived (key : String) : key ∈ derived key := .inl rfl

theorem name_mem_derived (key : String) (auxiliary : Auxiliary) : auxiliary.name key ∈ derived key :=
  .inr ⟨auxiliary, rfl⟩

theorem disjoint_derived {first second : String} (differ : first ≠ second)
    (clear : ∀ auxiliary : Auxiliary, auxiliary.name first ≠ second ∧ auxiliary.name second ≠ first) :
    Disjoint (derived first) (derived second) := by
  refine Set.disjoint_left.mpr ?_
  rintro name (rfl | ⟨left, rfl⟩) (same | ⟨right, same⟩)
  · exact differ same
  · exact (clear right).2 same.symm
  · exact (clear left).1 same
  · exact differ (Auxiliary.key_of_name same)

/-- The operations on a key, as the scripts they send. A fair acquire is made with and without
the heartbeat prefix, and a fair handle is released or dropped. -/
inductive Operation (N : Type) where
  | acquire (token : String) (ttl : Nat)
  | extend (token : String) (ttl : Nat)
  | release (token : String)
  | semanticAcquire (token : String) (ttl : Nat) (preds : List (Predicate N))
  | fairAcquire (owner : OwnerId) (ttl : Nat) (hbPrefix : Option String)
  | fairExtend (owner : OwnerId) (ttl : Nat)
  | fairRelease (owner : OwnerId)
  | fairDrop (owner : OwnerId)
  | setTestament (token : String) (payload : Payload) (ttl : Nat)
  | clearTestament (token : String)

variable {N : Type} (exceeds : Option Payload → N → Bool)

/-- What the operation does to the store. -/
def Operation.script (key : String) : Operation N → Script Unit
  | .acquire token ttl => do let _ ← Single.acquire key (fenceKeyFor key) token ttl (fenceTtlMs ttl)
  | .extend token ttl => do let _ ← Single.extend key (fenceKeyFor key) token ttl (fenceTtlMs ttl)
  | .release token => do let _ ← Single.release key token
  | .semanticAcquire token ttl preds => do let _ ← guarded exceeds key token ttl preds
  | .fairAcquire owner ttl hbPrefix => do
    let _ ← Fair.acquire key (queueKeyFor key) (fenceKeyFor key) (hbKeyFor key owner.token) owner.token ttl
      (max ttl 2000) hbPrefix
  | .fairExtend owner ttl => do let _ ← Fair.extend key owner.token ttl
  | .fairRelease owner => do
    let _ ← Fair.release key (some (queueKeyFor key)) owner.token (.int 30000) (some (hbPrefixFor key))
  | .fairDrop owner => do let _ ← Fair.release key none owner.token (.raw (hbPrefixFor key)) none
  | .setTestament token payload ttl => do let _ ← willSet key (willKeyFor key) token payload ttl
  | .clearTestament token => do let _ ← willDel key (willKeyFor key) token

/-! What each script may write. -/

section
open Script
variable {names : Set String} {key queueKey fenceKey hbKey token : String} {ttl : Nat}

theorem allocate_within (counter : fenceKey ∈ names) (fenceTtl status : Nat) :
    (allocate fenceKey fenceTtl status).Within names :=
  within_bind (within_incr counter) fun _ => within_bind (within_pexpire counter _) fun _ => (reads_pure _).within

theorem mutex_acquire_within (lock : key ∈ names) (counter : fenceKey ∈ names) (fenceTtl : Nat) :
    (Single.acquire key fenceKey token ttl fenceTtl).Within names := by
  refine within_bind (within_setNxPx lock _ _) fun taken => ?_
  split
  · exact allocate_within counter fenceTtl 1
  · refine within_bind (reads_get _).within fun payload => ?_
    split
    · exact within_bind (within_pexpire lock _) fun _ => allocate_within counter fenceTtl 2
    · exact (reads_pure _).within

theorem mutex_extend_within (lock : key ∈ names) (counter : fenceKey ∈ names) (fenceTtl : Nat) :
    (Single.extend key fenceKey token ttl fenceTtl).Within names := by
  refine within_bind (reads_get _).within fun payload => ?_
  split
  · exact within_bind (within_pexpire lock _) fun _ =>
      within_bind (within_pexpire counter _) fun _ => (reads_pure _).within
  · exact (reads_pure _).within

theorem mutex_release_within (lock : key ∈ names) : (Single.release key token).Within names := by
  refine within_bind (reads_get _).within fun payload => ?_
  split
  · exact within_del lock
  · exact (reads_pure _).within

variable {exceeds} in
theorem semantic_acquire_within {dataKey : String} {preds : List (Predicate N)} (lock : key ∈ names)
    (counter : fenceKey ∈ names) : (Semantic.acquire exceeds key fenceKey dataKey token ttl preds).Within names := by
  refine within_bind (reads_existsKey _).within fun present => ?_
  split
  · exact (reads_pure _).within
  refine within_bind (reads_existsKey _).within fun held => ?_
  split
  · exact (reads_pure _).within
  refine within_bind (reads_combined _ _).within fun holds => ?_
  split
  · exact (reads_pure _).within
  · exact within_bind (within_setPx lock _ _) fun _ => within_bind (within_incr counter) fun _ => (reads_pure _).within

theorem discardDead_within (queue : queueKey ∈ names) (hbPrefix : Option String) (fuel : Nat) :
    (discardDead queueKey hbPrefix fuel).Within names := by
  induction fuel with
  | zero => exact (reads_pure _).within
  | succ fuel ih =>
    have pops : (do let _ ← rpop queueKey; discardDead queueKey hbPrefix fuel : Script Unit).Within names :=
      within_bind (within_rpop queue) fun _ => ih
    refine within_bind (reads_llen _).within fun length => ?_
    split
    · exact (reads_pure _).within
    refine within_bind (reads_lrangeLast _).within fun last => ?_
    cases last with
    | none => exact pops
    | some oldest =>
      refine within_bind (reads_beats _ _).within fun alive => ?_
      split
      · exact (reads_pure _).within
      · exact pops

theorem enqueue_within (queue : queueKey ∈ names) (heart : hbKey ∈ names) (hbTtl : Nat) :
    (enqueue queueKey hbKey token ttl hbTtl).Within names := by
  have beat : (do
      setPx hbKey (.int 1) (.int hbTtl)
      let _ ← pexpire queueKey (ttl * 10)
      return (0, 0) : Script (Int × Int)).Within names :=
    within_bind (within_setPx heart _ _) fun _ =>
      within_bind (within_pexpire queue _) fun _ => (reads_pure _).within
  refine within_bind (reads_lpos _ _).within fun place => ?_
  split
  · exact within_bind (within_lpush queue _) fun _ => beat
  · exact beat

theorem fair_acquire_within (lock : key ∈ names) (queue : queueKey ∈ names) (counter : fenceKey ∈ names)
    (heart : hbKey ∈ names) (hbTtl : Nat) (hbPrefix : Option String) :
    (Fair.acquire key queueKey fenceKey hbKey token ttl hbTtl hbPrefix).Within names := by
  have waits : (enqueue queueKey hbKey token ttl hbTtl).Within names := enqueue_within queue heart hbTtl
  have counts (status : Int) : (do return (status, ← incr fenceKey) : Script (Int × Int)).Within names :=
    within_bind (within_incr counter) fun _ => (reads_pure _).within
  have takes : (do
      setPx key (.raw token) (.int ttl)
      return (1, ← incr fenceKey) : Script (Int × Int)).Within names :=
    within_bind (within_setPx lock _ _) fun _ => counts 1
  refine within_bind (reads_get _).within fun payload => ?_
  split
  · exact within_bind (within_pexpire lock _) fun _ => counts 2
  refine within_bind (reads_existsKey _).within fun held => ?_
  split
  · refine within_bind (reads_llen _).within fun length => ?_
    refine within_bind (discardDead_within queue _ _) fun _ => ?_
    refine within_bind (reads_lrangeLast _).within fun oldest => ?_
    split
    · split
      · exact within_bind (within_lrem queue _) fun _ => takes
      · exact takes
    · exact waits
  · exact waits

theorem fair_extend_within (lock : key ∈ names) : (Fair.extend key token ttl).Within names := by
  refine within_bind (reads_get _).within fun payload => ?_
  split
  · exact within_bind (within_pexpire lock _) fun _ => (reads_fail _).within
  · exact (reads_pure _).within

theorem handOff_within (lock : key ∈ names) (queue : queueKey ∈ names) (px : Payload) (hbPrefix : Option String)
    (fuel : Nat) : (handOff key queueKey px hbPrefix fuel).Within names := by
  induction fuel with
  | zero => exact (reads_pure _).within
  | succ fuel ih =>
    refine within_bind (within_rpop queue) fun item => ?_
    cases item with
    | none => exact ih
    | some waiter =>
      refine within_bind (reads_beats _ _).within fun alive => ?_
      split
      · exact within_setPx lock _ _
      · exact ih

theorem fair_release_within {queueKey : Option String} (lock : key ∈ names) (queue : ∀ name ∈ queueKey, name ∈ names)
    (px : Payload) (hbPrefix : Option String) : (Fair.release key queueKey token px hbPrefix).Within names := by
  refine within_bind (reads_get _).within fun payload => ?_
  split
  · exact (reads_pure _).within
  refine within_bind (within_del lock) fun _ => ?_
  cases queueKey with
  | none => exact (reads_fail _).within
  | some name =>
    have hands : (do
        handOff key name px hbPrefix (← llen name)
        return 1 : Script Int).Within names :=
      within_bind (reads_llen _).within fun _ =>
        within_bind (handOff_within lock (queue name rfl) _ _ _) fun _ => (reads_pure _).within
    exact hands

end

variable {exceeds} in
/-- An operation writes under names of its key only. -/
theorem Operation.within (key : String) (operation : Operation N) :
    (operation.script exceeds key).Within (derived key) := by
  have lock := mem_derived key
  have counter : fenceKeyFor key ∈ derived key := name_mem_derived key .fence
  have queue : queueKeyFor key ∈ derived key := name_mem_derived key .queue
  have will : willKeyFor key ∈ derived key := name_mem_derived key .will
  have answers {α : Type} {script : Script α} (within : script.Within (derived key)) :
      (do let _ ← script : Script Unit).Within (derived key) :=
    Script.within_bind within fun _ => (Script.reads_pure _).within
  cases operation with
  | acquire => exact answers (mutex_acquire_within lock counter _)
  | extend => exact answers (mutex_extend_within lock counter _)
  | release => exact answers (mutex_release_within lock)
  | semanticAcquire token ttl preds =>
    refine answers ?_
    unfold guarded
    split
    · exact (Script.reads_pure _).within
    · exact semantic_acquire_within lock counter
  | fairAcquire owner =>
    exact answers (fair_acquire_within lock queue counter (name_mem_derived key (.heartbeat owner)) _ _)
  | fairExtend => exact answers (fair_extend_within lock)
  | fairRelease => exact answers (fair_release_within lock (by simpa using queue) _ _)
  | fairDrop => exact answers (fair_release_within lock (by simp) _ _)
  | setTestament => exact answers (willSet_within will _ _)
  | clearTestament => exact answers (willDel_within will)

/-- The names of the two keys are different, and no operation on the first changes anything
under a name of the second. -/
def Apart (first second : String) : Prop :=
  Disjoint (derived first) (derived second) ∧
    ∀ (operation : Operation N) (now : Nat) (db : Keyspace), ∀ name ∈ derived second,
      ((operation.script exceeds first).exec now db).2 name = db name

/-- Two keys are apart exactly if neither is a name next to the other. -/
theorem apart_iff {first second : String} (differ : first ≠ second) : Apart exceeds first second ↔
    ∀ auxiliary : Auxiliary, auxiliary.name first ≠ second ∧ auxiliary.name second ≠ first := by
  constructor
  · rintro ⟨disjoint, _⟩ auxiliary
    constructor
    · rintro rfl
      exact Set.disjoint_left.mp disjoint (name_mem_derived first auxiliary) (mem_derived _)
    · rintro rfl
      exact Set.disjoint_left.mp disjoint (mem_derived _) (name_mem_derived second auxiliary)
  · intro clear
    have disjoint := disjoint_derived differ clear
    refine ⟨disjoint, fun operation now db name member => ?_⟩
    exact operation.within first name (Set.disjoint_right.mp disjoint member) now db

/-- A key without a colon is no name next to another key. -/
theorem Auxiliary.name_ne_of_colon {key other : String} (auxiliary : Auxiliary) (plain : ':' ∉ other.toList) :
    auxiliary.name key ≠ other := by
  rintro rfl
  simp [toList_name] at plain

theorem apart_orders : Apart above "jobs" "orders" :=
  (apart_iff above (by decide)).mpr fun auxiliary =>
    ⟨auxiliary.name_ne_of_colon (by decide), auxiliary.name_ne_of_colon (by decide)⟩

/-- `a` holds `jobs`, and `b` holds `jobs:will`. -/
def crossed : Keyspace := fun name =>
  if name = "jobs" then some ⟨.string (.raw "a"), some 1000⟩
  else if name = "jobs:will" then some ⟨.string (.raw "b"), some 1000⟩
  else none

/-- The testament of `jobs` takes the lock `jobs:will` away from its holder. -/
theorem testament_takes_lock :
    (¬ ∀ first second, first ≠ second → Apart above first second) ∧
    holder "jobs:will" crossed 0 = some "b" ∧
      holder "jobs:will" (setTestament "jobs" "a" (.fromMillis 1000) (.raw "done") 0 crossed).2 0 = some "done" := by
  refine ⟨fun apart => ?_, by decide, by decide⟩
  have kept := (apart "jobs" "jobs:will" (by decide)).2 (.setTestament "a" (.raw "done") 1000) 0 crossed _ (.inl rfl)
  have changed : ((Operation.script above "jobs" (.setTestament "a" (.raw "done") 1000)).exec 0 crossed).2
      "jobs:will" ≠ crossed "jobs:will" := by
    decide
  exact changed kept

end Palisade.Names
