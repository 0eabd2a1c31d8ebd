import Mathlib.Data.List.Pairwise

/-! Finishing operations guarded by a flag. All callers share the flag; the first of
them sets it and makes the one attempt, and whoever comes later is told that it
succeeded. An attempt may fail, or reach only a part of the store. -/
namespace OnceOnly

/-- A holding recorded in a store, and the attempt that ends it. -/
structure Protocol where
  Store : Type
  Attempt : Type
  Fault : Type
  attempt : Nat → Attempt → Store → Except Fault Unit × Store
  /-- The store records the holding at an instant. -/
  records : Store → Nat → Prop
  /-- The stores an attempt can meet at an instant. -/
  fits : Store → Nat → Prop
  /-- The holding is recorded at an instant where the attempt does not reach. -/
  misses : Attempt → Store → Nat → Prop
  /-- The attempt does reach enough of the holding to be answered with success. -/
  reaches : Attempt → Store → Nat → Prop
  lapses : ∀ {a store now later}, now ≤ later → misses a store later → misses a store now
  left : ∀ {a store now instant}, fits store now → now ≤ instant →
    (records (attempt now a store).2 instant ↔ misses a store instant)
  answered : ∀ {a store now}, fits store now → misses a store now →
    ((attempt now a store).1 = .ok () ↔ reaches a store now)

namespace Protocol
variable (p : Protocol)

structure Call where
  instant : Nat
  attempt : p.Attempt

/-- What a call returned, and the store at that moment. -/
structure Answer where
  instant : Nat
  result : Except p.Fault Unit
  store : p.Store

/-- One call; `marked` is the flag it finds. -/
def release (marked : Bool) (store : p.Store) (call : p.Call) : Except p.Fault Unit × p.Store :=
  if marked then (.ok (), store) else p.attempt call.instant call.attempt store

def answers (marked : Bool) (store : p.Store) : List p.Call → List p.Answer
  | [] => []
  | call :: rest =>
    let (result, store) := p.release marked store call
    ⟨call.instant, result, store⟩ :: answers true store rest

/-- Whenever one of the calls returned `Ok`, the holding was recorded no more. -/
def OkMeansReleased (store : p.Store) (calls : List p.Call) : Prop :=
  ∀ answer ∈ p.answers false store calls, answer.result = .ok () →
    ¬ p.records answer.store answer.instant

/-- The first attempt does not succeed where it leaves the holding recorded, and by
the second call nothing it missed is recorded any more. -/
def Clears (store : p.Store) : List p.Call → Prop
  | [] => True
  | first :: rest =>
    (p.misses first.attempt store first.instant → ¬ p.reaches first.attempt store first.instant) ∧
      ∀ second ∈ rest.head?, ¬ p.misses first.attempt store second.instant

variable {p} {store : p.Store} {calls : List p.Call}

theorem mem_answers_marked {answer : p.Answer} : answer ∈ p.answers true store calls ↔
    ∃ call ∈ calls, answer = ⟨call.instant, .ok (), store⟩ := by
  induction calls with
  | nil => simp [answers]
  | cons call rest ih => simp [answers, release, ih]

/-- Calls come in the order of their instants: what the second finds gone stays gone. -/
theorem misses_none_iff {a : p.Attempt} (ordered : calls.Pairwise (·.instant ≤ ·.instant)) :
    (∀ call ∈ calls, ¬ p.misses a store call.instant) ↔
      ∀ second ∈ calls.head?, ¬ p.misses a store second.instant := by
  cases calls with
  | nil => simp
  | cons second rest =>
    obtain ⟨earlier, _⟩ := List.pairwise_cons.mp ordered
    constructor
    · intro gone call found
      cases Option.some.inj found
      exact gone second List.mem_cons_self
    · intro gone call member missed
      refine gone second rfl ?_
      rcases List.mem_cons.mp member with rfl | later
      · exact missed
      · exact p.lapses (earlier call later) missed

theorem okMeansReleased_iff (fits : ∀ first ∈ calls.head?, p.fits store first.instant)
    (ordered : calls.Pairwise (·.instant ≤ ·.instant)) :
    p.OkMeansReleased store calls ↔ p.Clears store calls := by
  cases calls with
  | nil => simp [OkMeansReleased, answers, Clears]
  | cons first rest =>
    have fit := fits first rfl
    obtain ⟨later, ordered⟩ := List.pairwise_cons.mp ordered
    have left (instant : Nat) (after : first.instant ≤ instant) :=
      p.left (a := first.attempt) fit after
    simp only [OkMeansReleased, answers, List.forall_mem_cons, Clears, release, Bool.false_eq_true,
      if_false, ← misses_none_iff ordered]
    refine and_congr ?_ ?_
    · rw [left _ (Nat.le_refl _)]
      constructor
      · intro honest missed reached
        exact honest ((p.answered fit missed).mpr reached) missed
      · intro honest succeeded missed
        exact honest missed ((p.answered fit missed).mp succeeded)
    · constructor
      · intro gone call member missed
        exact gone _ (mem_answers_marked.mpr ⟨call, member, rfl⟩) rfl ((left _ (later call member)).mpr missed)
      · intro gone answer member _ recorded
        obtain ⟨call, called, rfl⟩ := mem_answers_marked.mp member
        exact gone call called ((left _ (later call called)).mp recorded)

end Protocol

end OnceOnly
