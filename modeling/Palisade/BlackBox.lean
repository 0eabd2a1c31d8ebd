import Mathlib.Data.List.Chain
import Palisade.Fnv
import Palisade.Http.Header

/-! The black box recorder: a ring of frames, each with a hash of its own body and of the
hash before it. Sequence numbers are `u64` and wrap. The ring evicts its oldest frame when
it is as long as its capacity, which one of capacity 0 is only before its first frame. -/
namespace Palisade.BlackBox
open Fnv

/-- What `record` is told. -/
structure Operation where
  key : String
  op : String
  ok : Bool
  fence : UInt64
  deriving DecidableEq

structure Frame extends Operation where
  seq : UInt64
  chain : UInt64
  deriving DecidableEq

/-- `(fence >> shift) as u8`, the high byte first. -/
def fenceBytes (fence : UInt64) : List UInt8 :=
  ([56, 48, 40, 32, 24, 16, 8, 0] : List UInt64).map fun shift => (fence >>> shift).toUInt8

/-- `u8::from(ok)` -/
def okByte (ok : Bool) : UInt8 := if ok then 1 else 0

def chainOf (prev : UInt64) (operation : Operation) : UInt64 :=
  let h := prev ^^^ offsetBasis
  let h := absorb h (Http.utf8 operation.key)
  let h := mix h 0
  let h := absorb h (Http.utf8 operation.op)
  let h := mix h 0
  let h := mix h (okByte operation.ok)
  absorb h (fenceBytes operation.fence)

structure State where
  buf : List Frame
  cap : Nat
  lastChain : UInt64
  nextSeq : UInt64
  deriving DecidableEq

def withCapacity (cap : Nat) : State := ⟨[], cap, 0, 0⟩

def State.record (s : State) (operation : Operation) : State :=
  let chain := chainOf s.lastChain operation
  let frame := ⟨operation, s.nextSeq, chain⟩
  { s with
    buf := (if s.buf.length = s.cap then s.buf.tail else s.buf) ++ [frame]
    lastChain := chain
    nextSeq := s.nextSeq + 1 }

def State.dump (s : State) : List Frame := s.buf

/-- The loop of `verify_chain`, with the hash of the frame before. -/
def verifyFrom (prev : UInt64) : List Frame → Except UInt64 Unit
  | [] => .ok ()
  | f :: rest => if chainOf prev f.toOperation ≠ f.chain then .error f.seq else verifyFrom f.chain rest

/-- The number of the first frame that does not commit to the one before it. -/
def State.verifyChain (s : State) : Except UInt64 Unit :=
  match s.buf with
  | [] => .ok ()
  | first :: rest => verifyFrom first.chain rest

/-- The recorder after these operations. -/
def recorded (cap : Nat) (operations : List Operation) : State :=
  operations.foldl State.record (withCapacity cap)

/-! What is verified. -/

/-- The second frame commits to the first. -/
def Commits (first second : Frame) : Prop := chainOf first.chain second.toOperation = second.chain

theorem verifyFrom_ok {first : Frame} {rest : List Frame} :
    verifyFrom first.chain rest = .ok () ↔ (first :: rest).IsChain Commits := by
  induction rest generalizing first with
  | nil => simp [verifyFrom]
  | cons second rest ih =>
    rw [verifyFrom, List.isChain_cons_cons, ← ih]
    by_cases commits : chainOf first.chain second.toOperation = second.chain
    · simp [commits, Commits]
    · simp [commits, Commits]

theorem verifyChain_ok {s : State} : s.verifyChain = .ok () ↔ s.buf.IsChain Commits := by
  unfold State.verifyChain
  split
  · next empty => simp [empty]
  · next first rest stored =>
    rw [stored]
    exact verifyFrom_ok

/-! What is kept. -/

/-- The recorder after `n` operations, whose frames would all be `frames`. -/
structure Keeps (cap : Nat) (operations : List Operation) (frames : List Frame) (s : State) : Prop where
  capacity : s.cap = cap
  recorded : frames.map Frame.toOperation = operations
  numbered : frames.map Frame.seq = (List.range operations.length).map UInt64.ofNat
  chained : frames.IsChain Commits
  last : ∀ frame ∈ frames.getLast?, frame.chain = s.lastChain
  next : s.nextSeq = UInt64.ofNat operations.length
  buf : s.buf = if cap = 0 then frames else frames.drop (frames.length - cap)

namespace Keeps
variable {cap : Nat} {operations : List Operation} {frames : List Frame} {s : State}

theorem length (keeps : Keeps cap operations frames s) : frames.length = operations.length := by
  rw [← keeps.recorded, List.length_map]

/-- The oldest frame goes once there are as many as the capacity. -/
theorem push {α : Type} (frames : List α) (frame : α) {cap : Nat} (positive : cap ≠ 0) :
    (if (frames.drop (frames.length - cap)).length = cap then (frames.drop (frames.length - cap)).tail
      else frames.drop (frames.length - cap)) ++ [frame] =
    (frames ++ [frame]).drop ((frames ++ [frame]).length - cap) := by
  have size : (frames ++ [frame]).length = frames.length + 1 := by simp
  rw [size]
  by_cases full : cap ≤ frames.length
  · have count : (frames.drop (frames.length - cap)).length = cap := by
      rw [List.length_drop]
      omega
    have shift : frames.length + 1 - cap = frames.length - cap + 1 := by omega
    have inside : frames.length - cap + 1 ≤ frames.length := by omega
    rw [if_pos count, List.tail_drop, shift, List.drop_append_of_le_length inside]
  · have count : (frames.drop (frames.length - cap)).length ≠ cap := by
      rw [List.length_drop]
      omega
    have none : frames.length - cap = 0 := by omega
    have still : frames.length + 1 - cap = 0 := by omega
    rw [if_neg count, none, still, List.drop_zero, List.drop_zero]

theorem record (keeps : Keeps cap operations frames s) (operation : Operation) :
    ∃ frame, Keeps cap (operations ++ [operation]) (frames ++ [frame]) (s.record operation) := by
  refine ⟨⟨operation, s.nextSeq, chainOf s.lastChain operation⟩, ?_⟩
  constructor
  · exact keeps.capacity
  · simp [keeps.recorded]
  · simp [keeps.numbered, keeps.next, List.range_succ]
  · refine List.isChain_append.mpr ⟨keeps.chained, List.isChain_singleton _, ?_⟩
    rintro last ended _ ⟨⟩
    rw [Commits, keeps.last last ended]
  · simp [State.record]
  · simp [State.record, keeps.next]
  · simp only [State.record, keeps.capacity, keeps.buf]
    by_cases zero : cap = 0
    · subst zero
      cases frames with
      | nil => simp
      | cons frame rest => simp
    · simp only [if_neg zero]
      exact push _ _ zero

end Keeps

theorem recorded_keeps (cap : Nat) (operations : List Operation) :
    ∃ frames, Keeps cap operations frames (recorded cap operations) := by
  induction operations using List.reverseRecOn with
  | nil => exact ⟨[], rfl, rfl, rfl, .nil, by simp, rfl, by simp [recorded, withCapacity]⟩
  | append_singleton operations operation ih =>
    obtain ⟨frames, keeps⟩ := ih
    obtain ⟨frame, after⟩ := keeps.record operation
    refine ⟨frames ++ [frame], ?_⟩
    rw [recorded, List.foldl_append]
    exact after

/-- A recorder always verifies. -/
theorem recorded_chain (cap : Nat) (operations : List Operation) :
    (recorded cap operations).buf.IsChain Commits := by
  obtain ⟨frames, keeps⟩ := recorded_keeps cap operations
  rw [keeps.buf]
  split
  · exact keeps.chained
  · exact keeps.chained.suffix (List.drop_suffix _ _)

namespace Keeps
variable {cap : Nat} {operations : List Operation} {frames : List Frame} {s : State}

theorem numbers (keeps : Keeps cap operations frames s) (short : operations.length ≤ 2 ^ 64) :
    frames.map (fun frame => frame.seq.toNat) = List.range operations.length := by
  have split : frames.map (fun frame => frame.seq.toNat) = (frames.map Frame.seq).map UInt64.toNat := by simp
  rw [split, keeps.numbered, List.map_map]
  conv_rhs => rw [← List.map_id (List.range operations.length)]
  refine List.map_congr_left fun number inside => ?_
  have below := List.mem_range.mp inside
  have size : UInt64.size = 2 ^ 64 := rfl
  exact UInt64.toNat_ofNat_of_lt (by omega)

theorem room (keeps : Keeps cap operations frames s) (positive : 0 < cap) :
    s.buf = frames.drop (operations.length - cap) := by
  rw [keeps.buf, if_neg positive.ne', keeps.length]

end Keeps

/-- The last `cap` operations in order, numbered up to the last one. -/
def State.KeepsLast (s : State) (cap : Nat) (operations : List Operation) : Prop :=
  s.dump.map Frame.toOperation = operations.drop (operations.length - cap) ∧
    s.dump.map (fun frame => frame.seq.toNat) =
      List.range' (operations.length - cap) (min operations.length cap)

namespace State.KeepsLast
variable {s : State} {cap : Nat} {operations : List Operation}

/-- The number of the last operation is one of 64 bits. -/
theorem length_le (last : s.KeepsLast cap operations) (positive : 0 < cap) : operations.length ≤ 2 ^ 64 := by
  by_contra long
  have member : operations.length - 1 ∈ s.dump.map fun frame => frame.seq.toNat := by
    rw [last.2, List.mem_range'_1]
    omega
  obtain ⟨frame, _, number⟩ := List.mem_map.mp member
  have below := frame.seq.toNat_lt
  omega

end State.KeepsLast

theorem Keeps.keepsLast {cap : Nat} {operations : List Operation} {frames : List Frame} {s : State}
    (keeps : Keeps cap operations frames s) (positive : 0 < cap) (short : operations.length ≤ 2 ^ 64) :
    s.KeepsLast cap operations := by
  constructor
  · rw [State.dump, keeps.room positive, List.map_drop, keeps.recorded]
  · rw [State.dump, keeps.room positive, List.map_drop, keeps.numbers short, List.range_eq_range',
      List.drop_range']
    congr 1
    · omega
    · omega

/-- A recorder keeps the last frames exactly if it has room for one and the numbers last;
what it keeps always verifies. -/
theorem keeps_last_frames_iff (cap : Nat) (operations : List Operation) :
    (recorded cap operations).KeepsLast cap operations ∧ (recorded cap operations).verifyChain = .ok () ↔
      (operations = [] ∨ 0 < cap) ∧ operations.length ≤ 2 ^ 64 := by
  obtain ⟨frames, keeps⟩ := recorded_keeps cap operations
  have verified : (recorded cap operations).verifyChain = .ok () :=
    verifyChain_ok.mpr (recorded_chain cap operations)
  constructor
  · rintro ⟨last, _⟩
    obtain rfl | positive := Nat.eq_zero_or_pos cap
    · have all : operations = [] := by
        have kept := last.1
        rw [State.dump, keeps.buf, if_pos rfl, keeps.recorded, Nat.sub_zero, List.drop_length] at kept
        exact kept
      subst all
      exact ⟨.inl rfl, Nat.zero_le _⟩
    · exact ⟨.inr positive, last.length_le positive⟩
  · rintro ⟨rfl | positive, short⟩
    · exact ⟨⟨by simp [recorded, withCapacity, State.dump], by simp [recorded, withCapacity, State.dump]⟩, verified⟩
    · exact ⟨keeps.keepsLast positive short, verified⟩

/-- A recorder of capacity 0 never evicts. -/
theorem empty_recorder_keeps_frame : ¬ ∀ (cap : Nat) (operations : List Operation),
    (recorded cap operations).KeepsLast cap operations ∧ (recorded cap operations).verifyChain = .ok () := by
  intro always
  have kept := (always 0 [⟨"k", "grant", true, 1⟩]).1.1
  cases kept

/-! What an edit of the tape is noticed by. -/

/-- The bytes a frame is hashed from. -/
def Operation.body (operation : Operation) : List UInt8 :=
  Http.utf8 operation.key ++ ([0] ++ (Http.utf8 operation.op ++ ([0] ++ ([okByte operation.ok] ++
    fenceBytes operation.fence))))

theorem chainOf_eq (prev : UInt64) (operation : Operation) :
    chainOf prev operation = absorb (prev ^^^ offsetBasis) operation.body := by
  simp only [chainOf, Operation.body, absorb_append, absorb_cons, absorb_nil]

theorem chainOf_prev {first second : UInt64} {operation : Operation}
    (same : chainOf first operation = chainOf second operation) : first = second := by
  rw [chainOf_eq, chainOf_eq] at same
  exact (UInt64.xor_left_inj _).mp (absorb_state same)

/-- One byte of the hashed body is changed: of the key, the flag or the fence. -/
inductive Edit (operation : Operation) : Operation → Prop where
  | key {key : String} : OneByte (Http.utf8 operation.key) (Http.utf8 key) → Edit operation { operation with key }
  | ok : Edit operation { operation with ok := !operation.ok }
  | fence {fence : UInt64} : OneByte (fenceBytes operation.fence) (fenceBytes fence) →
      Edit operation { operation with fence }

theorem Edit.body {operation edited : Operation} (edit : Edit operation edited) :
    OneByte operation.body edited.body := by
  cases edit with
  | key one => exact one.append [] _
  | ok =>
    refine ⟨Http.utf8 operation.key ++ ([0] ++ (Http.utf8 operation.op ++ [0])), okByte operation.ok,
      okByte !operation.ok, fenceBytes operation.fence, ?_, by simp [Operation.body], by simp [Operation.body]⟩
    cases operation.ok <;> decide
  | fence one =>
    have whole := one.append
      (Http.utf8 operation.key ++ ([0] ++ (Http.utf8 operation.op ++ ([0] ++ [okByte operation.ok])))) []
    simpa [Operation.body] using whole

theorem Edit.chainOf_ne {operation edited : Operation} (edit : Edit operation edited) (prev : UInt64) :
    chainOf prev edited ≠ chainOf prev operation := by
  rw [chainOf_eq, chainOf_eq]
  exact (edit.body.absorb_ne _).symm

/-- The tape with one frame replaced. -/
def State.tamper (s : State) (i : Nat) (frame : Frame) : State := { s with buf := s.buf.set i frame }

/-- The verification reports a frame. -/
def State.Refutes (s : State) : Prop := ∃ seq, s.verifyChain = .error seq

theorem refutes_iff {s : State} : s.Refutes ↔ ¬ s.buf.IsChain Commits := by
  rw [← verifyChain_ok, State.Refutes]
  cases s.verifyChain with
  | ok => simp
  | error seq => simp

theorem commits_of_chain {frames : List Frame} {i : Nat} {first second : Frame} (chained : frames.IsChain Commits)
    (left : frames[i]? = some first) (right : frames[i + 1]? = some second) : Commits first second := by
  obtain ⟨_, rfl⟩ := List.getElem?_eq_some_iff.mp left
  obtain ⟨inside, rfl⟩ := List.getElem?_eq_some_iff.mp right
  exact List.isChain_iff_getElem.mp chained i inside

section
variable {s : State} {i : Nat} {frame other : Frame}

/-- A frame that is replaced must still commit to the one before it. -/
theorem commits_before {before : Frame} (chained : (s.tamper (i + 1) other).buf.IsChain Commits)
    (stored : s.buf[i + 1]? = some frame) (left : s.buf[i]? = some before) : Commits before other := by
  have inside := (List.getElem?_eq_some_iff.mp stored).1
  refine commits_of_chain (i := i) chained ?_ ?_
  · exact (List.getElem?_set_ne (Nat.succ_ne_self i)).trans left
  · exact List.getElem?_set_self inside

/-- The next frame must commit to the first also where that is replaced. -/
theorem commits_after {after : Frame} (chained : (s.tamper 0 other).buf.IsChain Commits)
    (stored : s.buf[0]? = some frame) (right : s.buf[1]? = some after) : Commits other after := by
  have inside := (List.getElem?_eq_some_iff.mp stored).1
  refine commits_of_chain (i := 0) chained ?_ ?_
  · exact List.getElem?_set_self inside
  · exact (List.getElem?_set_ne Nat.zero_ne_one).trans right

theorem rehashed_refuted (chained : s.buf.IsChain Commits) (two : 2 ≤ s.buf.length)
    (stored : s.buf[i]? = some frame) {chain : UInt64} (differ : chain ≠ frame.chain) :
    (s.tamper i { frame with chain }).Refutes := by
  refine refutes_iff.mpr fun accepted => differ ?_
  cases i with
  | zero =>
    obtain ⟨after, right⟩ : ∃ after, s.buf[1]? = some after := ⟨_, List.getElem?_eq_getElem two⟩
    have was := commits_of_chain chained stored right
    have still := commits_after accepted stored right
    exact chainOf_prev (still.trans was.symm)
  | succ i =>
    have inside := (List.getElem?_eq_some_iff.mp stored).1
    obtain ⟨before, left⟩ : ∃ before, s.buf[i]? = some before :=
      ⟨_, List.getElem?_eq_getElem (Nat.lt_of_succ_lt inside)⟩
    have was := commits_of_chain chained left stored
    have still := commits_before accepted stored left
    exact still.symm.trans was

theorem edited_refuted (chained : s.buf.IsChain Commits) (stored : s.buf[i + 1]? = some frame)
    {edited : Operation} (edit : Edit frame.toOperation edited) :
    (s.tamper (i + 1) { frame with toOperation := edited }).Refutes := by
  refine refutes_iff.mpr fun accepted => ?_
  have inside := (List.getElem?_eq_some_iff.mp stored).1
  obtain ⟨before, left⟩ : ∃ before, s.buf[i]? = some before :=
    ⟨_, List.getElem?_eq_getElem (Nat.lt_of_succ_lt inside)⟩
  have was := commits_of_chain chained left stored
  have still := commits_before accepted stored left
  exact edit.chainOf_ne before.chain (still.trans was.symm)

end

/-- On every tape of two frames or more: another hash in any frame is noticed, and so is
another byte in the body of any frame but the first. -/
theorem tampering_refuted {cap : Nat} {operations : List Operation} {i : Nat} {frame : Frame}
    (two : 2 ≤ (recorded cap operations).dump.length) (stored : (recorded cap operations).dump[i]? = some frame) :
    (∀ chain ≠ frame.chain, ((recorded cap operations).tamper i { frame with chain }).Refutes) ∧
    (0 < i → ∀ edited, Edit frame.toOperation edited →
      ((recorded cap operations).tamper i { frame with toOperation := edited }).Refutes) := by
  have chained := recorded_chain cap operations
  constructor
  · intro chain differ
    exact rehashed_refuted chained two stored differ
  · intro later edited edit
    obtain ⟨i, rfl⟩ := Nat.exists_eq_succ_of_ne_zero later.ne'
    exact edited_refuted chained stored edit

/-- A grant and its release. -/
def graceful : List Operation := [⟨"k", "grant", true, 1⟩, ⟨"k", "release", true, 1⟩]

/-- The release is made to look failed. -/
theorem flipped_release_refuted : ∃ frame, (recorded 4 graceful).dump[1]? = some frame ∧
    ((recorded 4 graceful).tamper 1 { frame with toOperation := ⟨"k", "release", false, 1⟩ }).Refutes := by
  have two : 2 ≤ (recorded 4 graceful).dump.length := Nat.le_refl 2
  exact ⟨_, rfl, (tampering_refuted two rfl).2 Nat.one_pos _ .ok⟩

end Palisade.BlackBox
