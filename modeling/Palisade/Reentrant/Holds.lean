import Palisade.Reentrant.Handles

/-! One handle is one hold. The count in the hash is compared with the tally of
unreleased holds, and the expiry of the hash with the leases these were granted
for. -/
namespace Palisade.Reentrant
open Redis Single Lease Transition

theorem length_without {α : Type} {f : α → Nat} {l : List α} {a : α} (distinct : (l.map f).Nodup)
    (member : a ∈ l) : (l.filter fun b => !decide (f b = f a)).length + 1 = l.length := by
  induction l with
  | nil => simp at member
  | cons b rest ih =>
    obtain ⟨head, distinct⟩ := List.nodup_cons.mp distinct
    rcases List.mem_cons.mp member with rfl | inside
    · have whole : (rest.filter fun b => !decide (f b = f a)) = rest := by
        apply List.filter_eq_self.mpr
        intro b inside
        have other : f b ≠ f a := fun same => head (same ▸ List.mem_map_of_mem inside)
        simpa using other
      simp [whole]
    · have other : f b ≠ f a := fun same => head (same ▸ List.mem_map_of_mem inside)
      simpa [other] using ih distinct inside

/-- The tally describes the record: while the hash is visible, its count is the
number of unreleased holds of its generation, and its owner holds them all. -/
structure Tally.Agrees (tally : Tally) (now : Nat) (record : Option Record) : Prop where
  bounded : ∀ id generation, tally.granted id = some generation → generation ≤ tally.generation
  known : ∀ hold ∈ tally.holds, tally.granted hold.id = some hold.generation
  distinct : (tally.holds.map Hold.id).Nodup
  counted : ∀ r, live now record = some r → r.count = tally.current.length
  owned : ∀ r, live now record = some r → ∀ hold ∈ tally.current, hold.token = r.owner

namespace Tally
variable {tally : Tally} {now id : Nat} {token : String} {record after : Option Record}
  {command : Command} {status : Int}

theorem mem_current {hold : Hold} : hold ∈ tally.current ↔
    hold ∈ tally.holds ∧ hold.generation = tally.generation := by
  simp [current, within]

theorem current_add {generation ttl : Nat} : (tally.add generation id now token ttl).current =
    ⟨id, token, generation, some ⟨now, ttl⟩⟩ :: tally.within generation := by
  rw [current, within, add, List.filter_cons_of_pos (by simp)]
  rfl

theorem mem_remove {left : Hold → Bool} {hold : Hold} : hold ∈ (tally.remove left).holds ↔
    hold ∈ tally.holds ∧ left hold = false := by
  simp [remove]

theorem current_remove {left : Hold → Bool} :
    (tally.remove left).current = tally.current.filter fun hold => !left hold := by
  simp only [current, within, remove, List.filter_filter]
  exact List.filter_congr fun hold _ => Bool.and_comm ..

namespace Agrees
variable (agrees : tally.Agrees now record)
include agrees

theorem later {next : Nat} (later : now ≤ next) : tally.Agrees next record where
  bounded := agrees.bounded
  known := agrees.known
  distinct := agrees.distinct
  counted r seen := by
    obtain ⟨stored, running⟩ := live_eq_some.mp seen
    exact agrees.counted r (live_eq_some.mpr ⟨stored, by omega⟩)
  owned r seen := by
    obtain ⟨stored, running⟩ := live_eq_some.mp seen
    exact agrees.owned r (live_eq_some.mpr ⟨stored, by omega⟩)

/-- Holds leave the tally: what is to be shown of the record left. -/
theorem removed {left : Hold → Bool}
    (counted : ∀ r, live now after = some r →
      r.count = (tally.current.filter fun hold => !left hold).length)
    (owned : ∀ r, live now after = some r → ∀ hold ∈ tally.current, left hold = false →
      hold.token = r.owner) : (tally.remove left).Agrees now after where
  bounded := agrees.bounded
  known hold member := agrees.known hold (mem_remove.mp member).1
  distinct := agrees.distinct.sublist (List.filter_sublist.map _)
  counted r seen := by rw [current_remove, counted r seen]
  owned r seen hold member := by
    rw [current_remove, List.mem_filter] at member
    exact owned r seen hold member.1 (by simpa using member.2)

/-- A call that found the hash in other hands, or not at all, removes no hold of
the generation the hash belongs to. -/
theorem missed {left : Hold → Bool} (absent : ∀ r, live now record = some r → r.owner ≠ token)
    (own : ∀ hold ∈ tally.holds, left hold = true → hold.token = token) :
    (tally.remove left).Agrees now record := by
  have stays (r : Record) (seen : live now record = some r) :
      (tally.current.filter fun hold => !left hold) = tally.current := by
    apply List.filter_eq_self.mpr
    intro hold member
    cases leaves : left hold with
    | false => rfl
    | true =>
      have mine := own hold (mem_current.mp member).1 leaves
      exact absurd ((agrees.owned r seen hold member).symm.trans mine) (absent r seen)
  apply agrees.removed
  · intro r seen
    rw [stays r seen, agrees.counted r seen]
  · intro r seen hold member _
    exact agrees.owned r seen hold member

theorem added (unused : tally.granted id = none) {generation ttl : Nat}
    (recent : tally.generation ≤ generation)
    (counted : ∀ r, live now after = some r →
      r.count = (tally.add generation id now token ttl).current.length)
    (owned : ∀ r, live now after = some r → r.owner = token ∧
      ∀ hold ∈ tally.holds, hold.generation = generation → hold.token = token) :
    (tally.add generation id now token ttl).Agrees now after where
  bounded other g given := by
    rcases update_eq_some given with ⟨_, same⟩ | ⟨_, old⟩
    · cases same
      exact le_rfl
    · exact (agrees.bounded other g old).trans recent
  known hold member := by
    rcases List.mem_cons.mp member with rfl | old
    · exact Function.update_self ..
    · have given := agrees.known hold old
      have other : hold.id ≠ id := by
        intro same
        rw [same, unused] at given
        contradiction
      exact (Function.update_of_ne other ..).trans given
  distinct := by
    refine List.nodup_cons.mpr ⟨?_, agrees.distinct⟩
    intro member
    obtain ⟨hold, old, same⟩ := List.mem_map.mp member
    have given := agrees.known hold old
    rw [same, unused] at given
    contradiction
  counted := counted
  owned r seen hold member := by
    obtain ⟨mine, others⟩ := owned r seen
    obtain ⟨held, same⟩ := mem_current.mp member
    rcases List.mem_cons.mp held with rfl | old
    · exact mine.symm
    · exact (others hold old same).trans mine.symm

theorem opened (unused : tally.granted id = none) (ttl : Nat) :
    (tally.add (tally.generation + 1) id now token ttl).Agrees now (leased now ttl token 1) := by
  have old (hold : Hold) (member : hold ∈ tally.holds) : hold.generation ≠ tally.generation + 1 := by
    have bound := agrees.bounded _ _ (agrees.known hold member)
    omega
  apply agrees.added unused (Nat.le_succ _)
  · intro r seen
    obtain ⟨_, rfl⟩ := leased_eq_some.mp (live_eq_some.mp seen).1
    have empty : tally.within (tally.generation + 1) = [] := by
      apply List.filter_eq_nil_iff.mpr
      intro hold member
      simpa using old hold member
    simp [current_add, empty]
  · intro r seen
    obtain ⟨_, rfl⟩ := leased_eq_some.mp (live_eq_some.mp seen).1
    exact ⟨rfl, fun hold member same => absurd same (old hold member)⟩

theorem reentered (unused : tally.granted id = none)
    (held : live now record = some ⟨token, count, stop⟩) (ttl : Nat) :
    (tally.add tally.generation id now token ttl).Agrees now (leased now ttl token (count + 1)) := by
  apply agrees.added unused le_rfl
  · intro r seen
    obtain ⟨_, rfl⟩ := leased_eq_some.mp (live_eq_some.mp seen).1
    have before : count = tally.current.length := agrees.counted _ held
    rw [current_add, List.length_cons, before]
    rfl
  · intro r seen
    obtain ⟨_, rfl⟩ := leased_eq_some.mp (live_eq_some.mp seen).1
    exact ⟨rfl, fun hold member same => agrees.owned _ held hold (mem_current.mpr ⟨member, same⟩)⟩

theorem reduced (held : live now record = some ⟨token, count, stop⟩) {hold : Hold}
    (member : hold ∈ tally.current) (expiry : Nat) :
    (tally.remove fun other => decide (other.id = hold.id)).Agrees now
      (some ⟨token, count - 1, expiry⟩) := by
  have distinct : (tally.current.map Hold.id).Nodup :=
    agrees.distinct.sublist (List.filter_sublist.map _)
  apply agrees.removed
  · intro r seen
    obtain ⟨⟨⟩, _⟩ := live_eq_some.mp seen
    have before : count = tally.current.length := agrees.counted _ held
    have smaller := length_without distinct member
    simp only [before]
    omega
  · intro r seen other inside _
    obtain ⟨⟨⟩, _⟩ := live_eq_some.mp seen
    exact agrees.owned _ held other inside

theorem gone (left : Hold → Bool) : (tally.remove left).Agrees now none := by
  apply agrees.removed
  · simp [live]
  · simp [live]

theorem extended (held : live now record = some ⟨token, count, stop⟩) (ttl : Nat) :
    (tally.record now id token (.extend ttl) 1).Agrees now (leased now ttl token count) := by
  refine ⟨agrees.bounded, ?_, ?_, ?_, ?_⟩
  · intro hold member
    obtain ⟨old, inside, rfl⟩ := List.mem_map.mp member
    rw [Hold.forget_id, Hold.forget_generation]
    exact agrees.known old inside
  · simpa [Tally.record, Function.comp_def] using agrees.distinct
  · intro r seen
    obtain ⟨_, rfl⟩ := leased_eq_some.mp (live_eq_some.mp seen).1
    have before : count = tally.current.length := agrees.counted _ held
    simp [before, current, within, Tally.record, List.filter_map, Function.comp_def]
  · intro r seen hold member
    obtain ⟨_, rfl⟩ := leased_eq_some.mp (live_eq_some.mp seen).1
    obtain ⟨member, same⟩ := mem_current.mp member
    obtain ⟨old, inside, rfl⟩ := List.mem_map.mp member
    rw [Hold.forget_token]
    rw [Hold.forget_generation] at same
    exact agrees.owned _ held old (mem_current.mpr ⟨inside, same⟩)

/-- One script of call `id` for its owner. A grant needs a call without one so
far; a release needs the call's hold to be one of the generation it decrements. -/
theorem step (outcome : Outcome now token record command status after)
    (unused : ∀ ttl, command = .acquire ttl → tally.granted id = none)
    (own : ∀ hold ∈ tally.holds, hold.id = id → hold.token = token)
    (counts : ∀ refresh r, command = .releaseOne refresh → live now record = some r →
      r.owner = token → ∃ hold ∈ tally.current, hold.id = id) :
    (tally.record now id token command status).Agrees now after := by
  have departs (hold : Hold) (member : hold ∈ tally.holds)
      (leaves : decide (hold.id = id) = true) : hold.token = token :=
    own hold member (of_decide_eq_true leaves)
  cases outcome with
  | opened lapsed => exact agrees.opened (unused _ rfl) _
  | reentered held => exact agrees.reentered (unused _ rfl) held _
  | denied held other => exact agrees
  | emptied held last => exact agrees.gone _
  | reduced held more =>
    obtain ⟨hold, member, rfl⟩ := counts _ _ rfl held rfl
    exact agrees.reduced held member _
  | cleared held => exact agrees.gone _
  | extended held => exact agrees.extended held _
  | missed absent other =>
    cases command with
    | acquire ttl => exact absurd rfl (other ttl)
    | releaseOne refresh => exact agrees.missed absent departs
    | releaseAll => exact agrees.missed absent departs
    | extend ttl => exact agrees

end Agrees
end Tally

end Palisade.Reentrant
