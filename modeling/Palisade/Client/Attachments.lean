import Palisade.Transition

/-! Sessions on the side of the SDK. The clones of a client point to one `ClientInner`; the
builders `with_token` and `with_history` go through `Arc::make_mut` and may move their client
to an allocation of its own, and all allocations share the cell of the session. A heartbeat task
holds its allocation weakly, and strongly only while a heartbeat is under way. -/
namespace Palisade.Attachments
open Transition

structure ClientInner where
  bearer : Option String
  /-- Whether a recorder is attached. -/
  history : Bool
  deriving DecidableEq

inductive Phase where
  | sleeping
  /-- A heartbeat is under way. -/
  | sending
  | returned
  deriving DecidableEq

/-- A task that `attach_session` spawned; `inner` is the allocation it came from. -/
structure Loop where
  inner : Nat
  token : String
  phase : Phase
  deriving DecidableEq

/-- `clients` are the clones by the allocations they point to, nothing for those dropped.
`minted` are the tokens that servers gave out. -/
structure Sdk where
  session : Option String
  inners : List ClientInner
  clients : List (Option Nat)
  loops : List Loop
  minted : List String
  deriving DecidableEq

inductive Builder where
  | withToken (token : String)
  | withHistory
  deriving DecidableEq

def Builder.apply : Builder → ClientInner → ClientInner
  | .withToken token, inner => { inner with bearer := some token }
  | .withHistory, inner => { inner with history := true }

inductive Action where
  | clone (client : Nat)
  | drop (client : Nat)
  | build (client : Nat) (builder : Builder)
  /-- The registration of a session comes back with its token. -/
  | attach (client : Nat) (token : String)
  | close (client : Nat)
  /-- A heartbeat task wakes up. -/
  | wake (loop : Nat)
  /-- Its heartbeat is answered, or fails. -/
  | answer (loop : Nat)
  deriving DecidableEq

namespace Sdk

/-- The strong references to an allocation. -/
def strong (s : Sdk) (inner : Nat) : Nat :=
  s.clients.countP (· = some inner) + s.loops.countP fun loop => loop.inner = inner ∧ loop.phase = .sending

/-- Whether tasks refer to it weakly. -/
def weak (s : Sdk) (inner : Nat) : Bool := s.loops.any fun loop => loop.inner = inner ∧ loop.phase ≠ .returned

/-- `Arc::make_mut` and the change: in place if nothing else refers to the allocation. -/
def build (s : Sdk) (client inner : Nat) (builder : Builder) : Option Sdk := do
  let content ← s.inners[inner]?
  if s.strong inner = 1 ∧ s.weak inner = false then
    some { s with inners := s.inners.set inner (builder.apply content) }
  else
    some { s with
      inners := s.inners ++ [builder.apply content]
      clients := s.clients.set client (some s.inners.length) }

def setLoop (s : Sdk) (i : Nat) (loop : Loop) : Sdk := { s with loops := s.loops.set i loop }

def act (s : Sdk) : Action → Option Sdk
  | .clone client => do
    let inner ← (← s.clients[client]?)
    some { s with clients := s.clients ++ [some inner] }
  | .drop client => do
    let _ ← (← s.clients[client]?)
    some { s with clients := s.clients.set client none }
  | .build client builder => do
    let inner ← (← s.clients[client]?)
    s.build client inner builder
  | .attach client token => do
    let inner ← (← s.clients[client]?)
    if token ∈ s.minted then none
    else some { s with
      session := some token
      loops := s.loops ++ [⟨inner, token, .sleeping⟩]
      minted := token :: s.minted }
  | .close client => do
    let _ ← (← s.clients[client]?)
    some { s with session := none }
  | .wake i => do
    let loop ← s.loops[i]?
    if loop.phase ≠ .sleeping then none
    else if s.strong loop.inner ≠ 0 ∧ s.session = some loop.token then some (s.setLoop i { loop with phase := .sending })
    else some (s.setLoop i { loop with phase := .returned })
  | .answer i => do
    let loop ← s.loops[i]?
    if loop.phase ≠ .sending then none else some (s.setLoop i { loop with phase := .sleeping })

end Sdk

/-- A client that has just connected. -/
def sdk : Machine Sdk Action where
  initial s := ∃ inner, s = ⟨none, [inner], [some 0], [], []⟩
  step s action := s.act action

/-- Something refers to the allocation. -/
def Sdk.Referenced (s : Sdk) (inner : Nat) : Prop :=
  some inner ∈ s.clients ∨ ∃ loop ∈ s.loops, loop.inner = inner ∧ loop.phase = .sending

/-- The task goes on: at its next wake-up it sends a heartbeat if its session is still the one. -/
def Sdk.Beats (s : Sdk) (loop : Loop) : Prop := loop.phase ≠ .returned ∧ s.strong loop.inner ≠ 0

/-- Builders are used on the only client before any session is attached. -/
def Sdk.Calm (s : Sdk) : Action → Prop
  | .build .. => s.loops = [] ∧ s.clients.countP Option.isSome = 1
  | _ => True

instance (s : Sdk) (action : Action) : Decidable (s.Calm action) := by
  cases action <;> simp only [Sdk.Calm] <;> infer_instance

/-- Everything an action can do. -/
inductive Sdk.Moves (s : Sdk) : Action → Sdk → Prop where
  | clone {client inner : Nat} (held : some inner ∈ s.clients) :
      Moves s (.clone client) { s with clients := s.clients ++ [some inner] }
  | drop {client : Nat} : Moves s (.drop client) { s with clients := s.clients.set client none }
  | change {client : Nat} {builder : Builder} {inners : List ClientInner} (size : inners.length = s.inners.length) :
      Moves s (.build client builder) { s with inners }
  | move {client : Nat} {builder : Builder} {content : ClientInner} (apart : ¬ s.Calm (.build client builder)) :
      Moves s (.build client builder) { s with
        inners := s.inners ++ [content]
        clients := s.clients.set client (some s.inners.length) }
  | attach {client inner : Nat} {token : String} (held : some inner ∈ s.clients) (fresh : token ∉ s.minted) :
      Moves s (.attach client token) { s with
        session := some token
        loops := s.loops ++ [⟨inner, token, .sleeping⟩]
        minted := token :: s.minted }
  | close {client : Nat} : Moves s (.close client) { s with session := none }
  | send {i : Nat} {loop : Loop} (found : s.loops[i]? = some loop) (referenced : s.Referenced loop.inner) :
      Moves s (.wake i) (s.setLoop i { loop with phase := .sending })
  | stop {i : Nat} {loop : Loop} (found : s.loops[i]? = some loop)
      (ended : ¬ (s.Referenced loop.inner ∧ s.session = some loop.token)) :
      Moves s (.wake i) (s.setLoop i { loop with phase := .returned })
  | rest {i : Nat} {loop : Loop} (found : s.loops[i]? = some loop) :
      Moves s (.answer i) (s.setLoop i { loop with phase := .sleeping })

section
variable {s t : Sdk} {inner : Nat}

theorem strong_ne_zero : s.strong inner ≠ 0 ↔ s.Referenced inner := by
  rw [Sdk.strong, Nat.ne_zero_iff_zero_lt, Nat.add_pos_iff_pos_or_pos, List.countP_pos_iff, List.countP_pos_iff]
  simp [Sdk.Referenced]

/-- The only client changes its allocation in place. -/
theorem calm_strong (alone : s.clients.countP Option.isSome = 1) (idle : s.loops = []) (held : some inner ∈ s.clients) :
    s.strong inner = 1 ∧ s.weak inner = false := by
  have most : s.clients.countP (· = some inner) ≤ s.clients.countP Option.isSome := by
    refine List.countP_mono_left fun client _ same => ?_
    rw [of_decide_eq_true same]
    rfl
  have least : 0 < s.clients.countP (· = some inner) := List.countP_pos_iff.mpr ⟨_, held, decide_eq_true rfl⟩
  refine ⟨?_, by rw [Sdk.weak, idle]; rfl⟩
  rw [Sdk.strong, idle, List.countP_nil]
  omega

theorem build_moves {client : Nat} {builder : Builder} (held : some inner ∈ s.clients)
    (built : s.build client inner builder = some t) : s.Moves (.build client builder) t := by
  obtain ⟨content, _, built⟩ := Option.bind_eq_some_iff.mp built
  by_cases only : s.strong inner = 1 ∧ s.weak inner = false
  · rw [if_pos only] at built
    cases built
    exact .change (List.length_set ..)
  · rw [if_neg only] at built
    cases built
    exact .move fun calm => only (calm_strong calm.2 calm.1 held)

theorem act_moves {action : Action} (stepped : s.act action = some t) : s.Moves action t := by
  cases action with
  | clone client =>
    obtain ⟨_, found, stepped⟩ := Option.bind_eq_some_iff.mp stepped
    obtain ⟨inner, rfl, ⟨⟩⟩ := Option.bind_eq_some_iff.mp stepped
    exact .clone (List.mem_of_getElem? found)
  | drop client =>
    obtain ⟨_, found, stepped⟩ := Option.bind_eq_some_iff.mp stepped
    obtain ⟨inner, rfl, ⟨⟩⟩ := Option.bind_eq_some_iff.mp stepped
    exact .drop
  | build client builder =>
    obtain ⟨_, found, stepped⟩ := Option.bind_eq_some_iff.mp stepped
    obtain ⟨inner, rfl, stepped⟩ := Option.bind_eq_some_iff.mp stepped
    exact build_moves (List.mem_of_getElem? found) stepped
  | attach client token =>
    obtain ⟨_, found, stepped⟩ := Option.bind_eq_some_iff.mp stepped
    obtain ⟨inner, rfl, stepped⟩ := Option.bind_eq_some_iff.mp stepped
    obtain ⟨fresh, ⟨⟩⟩ := Option.ite_none_left_eq_some.mp stepped
    exact .attach (List.mem_of_getElem? found) fresh
  | close client =>
    obtain ⟨_, found, stepped⟩ := Option.bind_eq_some_iff.mp stepped
    obtain ⟨inner, rfl, ⟨⟩⟩ := Option.bind_eq_some_iff.mp stepped
    exact .close
  | wake i =>
    obtain ⟨loop, found, stepped⟩ := Option.bind_eq_some_iff.mp stepped
    obtain ⟨awake, stepped⟩ := Option.ite_none_left_eq_some.mp stepped
    by_cases both : s.strong loop.inner ≠ 0 ∧ s.session = some loop.token
    · rw [if_pos both] at stepped
      cases stepped
      exact .send found (strong_ne_zero.mp both.1)
    · rw [if_neg both] at stepped
      cases stepped
      exact .stop found fun known => both ⟨strong_ne_zero.mpr known.1, known.2⟩
  | answer i =>
    obtain ⟨loop, found, stepped⟩ := Option.bind_eq_some_iff.mp stepped
    obtain ⟨_, ⟨⟩⟩ := Option.ite_none_left_eq_some.mp stepped
    exact .rest found

/-- A reference to an allocation comes from another one. -/
theorem Sdk.Moves.referenced {action : Action} (moves : s.Moves action t) (old : inner < s.inners.length) (referenced : t.Referenced inner) :
    s.Referenced inner := by
  have sends {i : Nat} {loop : Loop} {phase : Phase}
      (referenced : (s.setLoop i { loop with phase }).Referenced inner)
      (again : phase = .sending → s.Referenced loop.inner) : s.Referenced inner := by
    rcases referenced with held | ⟨other, listed, same, sending⟩
    · exact .inl held
    · rcases List.mem_or_eq_of_mem_set listed with before | rfl
      · exact .inr ⟨other, before, same, sending⟩
      · exact same ▸ again sending
  cases moves with
  | clone held =>
    rcases referenced with there | sending
    · rcases List.mem_append.mp there with before | new
      · exact .inl before
      · cases List.mem_singleton.mp new
        exact .inl held
    · exact .inr sending
  | drop =>
    rcases referenced with there | sending
    · rcases List.mem_or_eq_of_mem_set there with before | ⟨⟨⟩⟩
      exact .inl before
    · exact .inr sending
  | change | close => exact referenced
  | move =>
    rcases referenced with there | sending
    · rcases List.mem_or_eq_of_mem_set there with before | same
      · exact .inl before
      · cases same
        exact absurd old (Nat.lt_irrefl _)
    · exact .inr sending
  | attach held fresh =>
    rcases referenced with there | ⟨loop, listed, same, sending⟩
    · exact .inl there
    · rcases List.mem_append.mp listed with before | new
      · exact .inr ⟨loop, before, same, sending⟩
      · cases List.mem_singleton.mp new
        cases sending
  | send found there => exact sends referenced fun _ => there
  | stop | rest => exact sends referenced nofun

/-- What holds of the tasks. The task of the current session stops only when nothing refers to
its allocation any more. -/
structure Inv (s : Sdk) : Prop where
  clients : ∀ inner, some inner ∈ s.clients → inner < s.inners.length
  loops : ∀ loop ∈ s.loops, loop.inner < s.inners.length
  minted : ∀ loop ∈ s.loops, loop.token ∈ s.minted
  distinct : Distinct Loop.token s.loops
  current : ∀ token, s.session = some token → ∃ loop ∈ s.loops, loop.token = token
  ended : ∀ loop ∈ s.loops, s.session = some loop.token → loop.phase = .returned → ¬ s.Referenced loop.inner

/-- The tasks keep their allocations and their tokens. -/
theorem Inv.phase {i : Nat} {loop : Loop} {phase : Phase} {action : Action} (inv : Inv s)
    (found : s.loops[i]? = some loop) (moves : s.Moves action (s.setLoop i { loop with phase }))
    (stops : phase = .returned → ¬ (s.Referenced loop.inner ∧ s.session = some loop.token)) :
    Inv (s.setLoop i { loop with phase }) := by
  have listed := List.mem_of_getElem? found
  have origin {other : Loop} (there : other ∈ s.loops.set i { loop with phase }) :
      other ∈ s.loops ∨ other = { loop with phase } := List.mem_or_eq_of_mem_set there
  refine ⟨inv.clients, fun other there => ?_, fun other there => ?_, inv.distinct.set found rfl, fun token open_ => ?_,
    fun other there session returned referenced => ?_⟩
  · rcases origin there with before | rfl
    · exact inv.loops other before
    · exact inv.loops loop listed
  · rcases origin there with before | rfl
    · exact inv.minted other before
    · exact inv.minted loop listed
  · obtain ⟨other, before, named⟩ := inv.current token open_
    obtain ⟨j, here⟩ := List.mem_iff_getElem?.mp before
    by_cases same : j = i
    · subst same
      cases here.symm.trans found
      exact ⟨_, List.mem_set (List.getElem?_eq_some_iff.mp found).1 _, named⟩
    · exact ⟨other, List.mem_of_getElem? ((List.getElem?_set_ne fun eq => same eq.symm).trans here), named⟩
  · rcases origin there with before | rfl
    · exact inv.ended other before session returned (moves.referenced (inv.loops other before) referenced)
    · exact stops returned ⟨moves.referenced (inv.loops loop listed) referenced, session⟩

theorem Inv.moves {action : Action} (inv : Inv s) (moves : s.Moves action t) : Inv t := by
  have kept (loop : Loop) (listed : loop ∈ s.loops) (session : s.session = some loop.token)
      (returned : loop.phase = .returned) : ¬ t.Referenced loop.inner :=
    fun there => inv.ended loop listed session returned (moves.referenced (inv.loops loop listed) there)
  cases moves with
  | @clone _ held_inner held =>
    refine ⟨fun inner there => ?_, inv.loops, inv.minted, inv.distinct, inv.current, kept⟩
    rcases List.mem_append.mp there with before | new
    · exact inv.clients inner before
    · cases List.mem_singleton.mp new
      exact inv.clients held_inner held
  | drop =>
    refine ⟨fun inner there => ?_, inv.loops, inv.minted, inv.distinct, inv.current, kept⟩
    rcases List.mem_or_eq_of_mem_set there with before | ⟨⟨⟩⟩
    exact inv.clients inner before
  | change size =>
    exact ⟨fun inner there => (inv.clients inner there).trans_eq size.symm, fun loop there => (inv.loops loop there).trans_eq size.symm,
      inv.minted, inv.distinct, inv.current, kept⟩
  | @move _ _ content apart =>
    have more {inner : Nat} (old : inner < s.inners.length) : inner < (s.inners ++ [content]).length := by
      rw [List.length_append]
      exact Nat.lt_add_right _ old
    refine ⟨fun inner there => ?_, fun loop there => more (inv.loops loop there), inv.minted, inv.distinct, inv.current, kept⟩
    rcases List.mem_or_eq_of_mem_set there with before | same
    · exact more (inv.clients inner before)
    · cases same
      simp
  | attach held fresh =>
    refine ⟨inv.clients, ?_, ?_, ?_, ?_, ?_⟩
    · intro loop there
      rcases List.mem_append.mp there with before | new
      · exact inv.loops loop before
      · cases List.mem_singleton.mp new
        exact inv.clients _ held
    · intro loop there
      rcases List.mem_append.mp there with before | new
      · exact List.mem_cons_of_mem _ (inv.minted loop before)
      · cases List.mem_singleton.mp new
        exact List.mem_cons_self
    · exact inv.distinct.concat fun loop there same => fresh (Eq.mp (congrArg (· ∈ s.minted) same) (inv.minted loop there))
    · rintro _ ⟨⟩
      exact ⟨_, List.mem_append_right _ List.mem_cons_self, rfl⟩
    · intro loop there session returned
      rcases List.mem_append.mp there with before | new
      · cases session
        exact absurd (inv.minted loop before) fresh
      · cases List.mem_singleton.mp new
        cases returned
  | close => exact ⟨inv.clients, inv.loops, inv.minted, inv.distinct, nofun, nofun⟩
  | send found referenced => exact inv.phase found (.send found referenced) nofun
  | stop found ended => exact inv.phase found (.stop found ended) fun _ => ended
  | rest found => exact inv.phase found (.rest found) nofun

theorem inv_reachable (reach : sdk.Reachable s) : Inv s := by
  refine reach.invariant ?_ fun s action t inv stepped => inv.moves (act_moves stepped)
  rintro s ⟨inner, rfl⟩
  exact ⟨by simp, nofun, nofun, nofun, nofun, nofun⟩

/-- The session that the clients show has one task, and the task goes on as long as a clone
refers to the allocation it was attached through, or a heartbeat of some task does. -/
theorem session_beats (reach : sdk.Reachable s) {token : String} (session : s.session = some token) :
    ∃ loop ∈ s.loops, loop.token = token ∧ (∀ other ∈ s.loops, other.token = token → other = loop) ∧
      (s.Beats loop ↔ s.Referenced loop.inner) := by
  have inv := inv_reachable reach
  obtain ⟨loop, listed, rfl⟩ := inv.current token session
  refine ⟨loop, listed, rfl, fun other there same => ?_, ?_⟩
  · obtain ⟨i, first⟩ := List.mem_iff_getElem?.mp listed
    obtain ⟨j, second⟩ := List.mem_iff_getElem?.mp there
    cases inv.distinct j i other loop second first same
    exact Option.some.inj (second.symm.trans first)
  · constructor
    · exact fun beats => strong_ne_zero.mp beats.2
    · exact fun referenced => ⟨fun returned => inv.ended loop listed session returned referenced, strong_ne_zero.mpr referenced⟩

/-- All clones of a client that was finished before it was shared refer to one allocation. -/
theorem calm_inners (reach : sdk.ReachableWhen Sdk.Calm s) : s.inners.length = 1 := by
  refine reach.invariant (P := fun s => s.inners.length = 1) ?_ fun s action t one calm stepped => ?_
  · rintro s ⟨inner, rfl⟩
    rfl
  · cases act_moves stepped with
    | change size => exact size.trans one
    | move apart => exact absurd calm apart
    | _ => exact one

/-- Where no builder is used once the client is shared or has attached a session, the session
beats as long as any clone lives. -/
theorem calm_session_beats (reach : sdk.ReachableWhen Sdk.Calm s) {token : String} (session : s.session = some token)
    (lives : some inner ∈ s.clients) : ∃ loop ∈ s.loops, loop.token = token ∧ s.Beats loop := by
  have inv := inv_reachable (reach.mono fun _ _ _ => trivial)
  have one := calm_inners reach
  obtain ⟨loop, listed, rfl⟩ := inv.current token session
  have same : inner = loop.inner := by
    have first := inv.clients inner lives
    have second := inv.loops loop listed
    omega
  have referenced : s.Referenced loop.inner := .inl (same ▸ lives)
  exact ⟨loop, listed, rfl, fun returned => inv.ended loop listed session returned referenced, strong_ne_zero.mpr referenced⟩

end

/-- A client as it comes from `connect`. -/
def connected : Sdk := ⟨none, [⟨none, false⟩], [some 0], [], []⟩

/-- A bearer token is attached after the session, which leaves the heartbeat task behind. -/
def belated : List Action := [.attach 0 "s-1", .wake 0, .answer 0, .build 0 (.withToken "key"), .wake 0]

theorem belated_beats : ∃ s : Sdk, s.clients = [some 1] ∧ s.session = some "s-1" ∧
    ∃ loop ∈ s.loops, loop.token = "s-1" ∧ (∀ other ∈ s.loops, other.token = "s-1" → other = loop) ∧
      (s.Beats loop ↔ s.Referenced loop.inner) := by
  obtain ⟨s, reach, moved, session⟩ := sdk.exists_reachableWhen (fun _ _ => True)
    (fun s => s.clients = [some 1] ∧ s.session = some "s-1") (s := connected) ⟨_, rfl⟩ belated (by decide)
  exact ⟨s, moved, session, session_beats reach session⟩

/-- The token comes first, and the clone that attached the session is dropped. -/
def timely : List Action :=
  [.build 0 (.withToken "key"), .clone 0, .attach 0 "s-1", .drop 0, .wake 0, .answer 0, .wake 0]

theorem timely_beats : ∃ s : Sdk, s.clients = [none, some 0] ∧ ∃ loop ∈ s.loops, loop.token = "s-1" ∧ s.Beats loop := by
  obtain ⟨s, reach, kept, session⟩ := sdk.exists_reachableWhen Sdk.Calm
    (fun s => s.clients = [none, some 0] ∧ s.session = some "s-1") (s := connected) ⟨_, rfl⟩ timely (by decide)
  have lives : some 0 ∈ s.clients := by simp [kept]
  exact ⟨s, kept, calm_session_beats reach session lives⟩

end Palisade.Attachments
