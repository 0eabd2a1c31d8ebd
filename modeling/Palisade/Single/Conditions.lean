import Palisade.Single.Semantic

/-! What the conditions of a semantic lock ask for, and when its grant script agrees. The
script replaces a missing or non-numeric field by a sentinel, which a threshold below it
lets pass; numbers are integers here. -/
namespace Palisade.Semantic
open Redis Single

/-- The number in a field. Which texts besides decimal integers are numbers is left to
`numeral`. -/
def number (numeral : String → Option Int) : Payload → Option Int
  | .int value => some value
  | .raw text => numeral text

/-- What a field without a number counts as. -/
def sentinel : Int := -999999

/-- `(tonumber(stored) or -999999) > value`. Lua compares doubles, which hold integers exactly up to
2^53; beyond that the comparison is idealised. -/
def passes (numeral : String → Option Int) (stored : Option Payload) (value : Int) : Bool :=
  decide (value < (stored.bind (number numeral)).getD sentinel)

section
variable (numeral : String → Option Int) (fields : Hash)

/-- The truth of a condition in the script. -/
def Predicate.met : Predicate Int → Bool
  | .equals field value => decide ((fields.lookup field).map text = some value)
  | .fieldGt field value => passes numeral (fields.lookup field) value
  | .absent field => !(fields.lookup field).isSome

/-- What a condition asks for: a field with the value, with a number beyond the threshold,
or no field. -/
def Predicate.Asks : Predicate Int → Prop
  | .equals field value => (fields.lookup field).map text = some value
  | .fieldGt field value => ∃ found, (fields.lookup field).bind (number numeral) = some found ∧ value < found
  | .absent field => fields.lookup field = none

/-- The field is missing or no number, and the threshold is below what it counts as. -/
def Predicate.Slips : Predicate Int → Prop
  | .fieldGt field value => (fields.lookup field).bind (number numeral) = none ∧ value < sentinel
  | .equals .. | .absent _ => False

end

section
variable (numeral : String → Option Int) (key token : String) (ttl : Nat) (preds : List (Predicate Int))
  (now : Nat) (db : Keyspace)

/-- The data is a hash, if it is there. -/
def HashData : Prop :=
  ∀ entry, db.lookup now (dataKeyFor key) = some entry → ∃ fields stop, entry = ⟨.hash fields, stop⟩

/-- The fence counter is a number, if it is there. -/
def Countable : Prop :=
  ∀ entry, db.lookup now (fenceKeyFor key) = some entry → ∃ fence stop, entry = ⟨.string (.int fence), stop⟩

/-- The lock is free, and the data is there and as every condition asks. -/
def Specified : Prop :=
  db.lookup now key = none ∧ ∃ fields stop, db.lookup now (dataKeyFor key) = some ⟨.hash fields, stop⟩ ∧
    ∀ predicate ∈ preds, predicate.Asks numeral fields

def Grants : Prop :=
  ∃ fence, ((guarded (passes numeral) key token ttl preds).exec now db).1 = .ok (1, fence)

/-- Where the lock is free and each condition holds or slips through, the lease is zero
exactly if one slips through, and otherwise the fence counter is a number. -/
def Decided : Prop :=
  db.lookup now key = none → ∀ fields stop, db.lookup now (dataKeyFor key) = some ⟨.hash fields, stop⟩ →
    (∀ predicate ∈ preds, predicate.Asks numeral fields ∨ predicate.Slips numeral fields) →
    (ttl = 0 ↔ ∃ predicate ∈ preds, predicate.Slips numeral fields) ∧ (ttl ≠ 0 → Countable key now db)

end

section
variable {numeral : String → Option Int} {key token : String} {ttl : Nat} {preds : List (Predicate Int)}
  {now : Nat} {db : Keyspace} {fields : Hash} {stop : Option Nat} {predicate : Predicate Int}

theorem Predicate.met_iff : predicate.met numeral fields = true ↔
    predicate.Asks numeral fields ∨ predicate.Slips numeral fields := by
  cases predicate with
  | equals field value => simp [met, Asks, Slips]
  | absent field => simp [met, Asks, Slips]
  | fieldGt field value =>
    simp only [met, passes, Asks, Slips, decide_eq_true_eq]
    cases (fields.lookup field).bind (number numeral) <;> simp

theorem Predicate.Asks.not_slips (asks : predicate.Asks numeral fields) : ¬ predicate.Slips numeral fields := by
  cases predicate with
  | equals | absent => exact id
  | fieldGt field value =>
    obtain ⟨found, numeric, _⟩ := asks
    rintro ⟨missing, _⟩
    cases numeric.symm.trans missing

theorem exec_holds {dataKey : String} (found : db.lookup now dataKey = some ⟨.hash fields, stop⟩)
    (predicate : Predicate Int) :
    (predicate.holds (passes numeral) dataKey).exec now db = (.ok (predicate.met numeral fields), db) := by
  cases predicate with
  | equals | fieldGt => simp [Predicate.holds, Predicate.met, Script.exec_hget found]
  | absent => simp [Predicate.holds, Predicate.met, Script.exec_hexists found]

theorem exec_combined {dataKey : String} (found : db.lookup now dataKey = some ⟨.hash fields, stop⟩)
    (preds : List (Predicate Int)) :
    (combined (passes numeral) dataKey preds).exec now db =
      (.ok (preds.all fun predicate => predicate.met numeral fields), db) := by
  induction preds with
  | nil => rfl
  | cons predicate rest ih =>
    simp only [combined, Script.exec_bind, exec_holds found, Script.exec_ite, ih, Script.exec_pure, List.all_cons]
    cases predicate.met numeral fields <;> rfl

theorem all_met : (preds.all fun predicate => predicate.met numeral fields) = true ↔
    ∀ predicate ∈ preds, predicate.Asks numeral fields ∨ predicate.Slips numeral fields := by
  simp only [List.all_eq_true, Predicate.met_iff]

/-- Each condition of the list holds or slips through, on a free lock. -/
def Reaches (numeral : String → Option Int) (key : String) (preds : List (Predicate Int)) (now : Nat)
    (db : Keyspace) (fields : Hash) : Prop :=
  db.lookup now key = none ∧ (∃ stop, db.lookup now (dataKeyFor key) = some ⟨.hash fields, stop⟩) ∧
    ∀ predicate ∈ preds, predicate.Asks numeral fields ∨ predicate.Slips numeral fields

/-- The script where it reaches its grant. -/
theorem Reaches.exec (reaches : Reaches numeral key preds now db fields) (given : preds ≠ []) :
    (guarded (passes numeral) key token ttl preds).exec now db =
      (do Script.setPx key (.raw token) (.int ttl)
          return (1, ← Script.incr (fenceKeyFor key)) : Script (Nat × Int)).exec now db := by
  obtain ⟨free, ⟨stop, found⟩, held⟩ := reaches
  have nonempty : preds.isEmpty = false := by simpa using given
  simp [guarded, nonempty, acquire, found, free, exec_combined found, all_met.mpr held]

theorem exec_refused (data : HashData key now db) (refused : ∀ fields, ¬ Reaches numeral key preds now db fields) :
    (guarded (passes numeral) key token ttl preds).exec now db = (.ok (0, 0), db) := by
  unfold guarded
  split
  · rfl
  cases found : db.lookup now (dataKeyFor key) with
  | none => simp [acquire, found]
  | some entry =>
    obtain ⟨fields, stop, rfl⟩ := data entry found
    cases lock : db.lookup now key with
    | some holder => simp [acquire, found, lock]
    | none =>
      have unmet : ¬ (preds.all fun predicate => predicate.met numeral fields) = true := fun met =>
        refused fields ⟨lock, ⟨stop, found⟩, all_met.mp met⟩
      simp [acquire, found, lock, exec_combined found, Bool.eq_false_of_not_eq_true unmet]

/-- The grant itself: refused for a lease of zero, and counted if the counter is a number. -/
theorem Reaches.outcome (reaches : Reaches numeral key preds now db fields) (given : preds ≠ []) (token : String)
    (ttl : Nat) :
    (ttl = 0 ∧ (guarded (passes numeral) key token ttl preds).exec now db = (.error .invalidExpire, db)) ∨
    (ttl ≠ 0 ∧ Countable key now db ∧
      ∃ fence after, (guarded (passes numeral) key token ttl preds).exec now db = (.ok (1, fence), after)) ∨
    (ttl ≠ 0 ∧ ¬ Countable key now db ∧ ∃ fault, (guarded (passes numeral) key token ttl preds).exec now db =
      (.error fault, db.put key ⟨.string (.raw token), some (now + ttl)⟩)) := by
  rw [reaches.exec given]
  by_cases zero : ttl = 0
  · subst zero
    exact .inl ⟨rfl, rfl⟩
  have seen : (db.put key ⟨.string (.raw token), some (now + ttl)⟩).lookup now (fenceKeyFor key) =
      db.lookup now (fenceKeyFor key) := Keyspace.lookup_congr (Keyspace.put_of_ne (fenceKeyFor_ne key))
  simp only [Script.exec_bind, Script.exec_setPx _ (Nat.pos_of_ne_zero zero), Script.exec_incr, seen,
    Script.exec_pure]
  refine .inr ?_
  match counter : db.lookup now (fenceKeyFor key) with
  | none => exact .inl ⟨zero, by simp [Countable, counter], _, _, rfl⟩
  | some ⟨.string (.int fence), stop⟩ => exact .inl ⟨zero, by simp [Countable, counter], _, _, rfl⟩
  | some ⟨.string (.raw _), _⟩ | some ⟨.hash _, _⟩ | some ⟨.zset _, _⟩ | some ⟨.list _, _⟩ =>
    exact .inr ⟨zero, by simp [Countable, counter], _, rfl⟩

theorem Specified.reaches (specified : Specified numeral key preds now db) :
    ∃ fields, Reaches numeral key preds now db fields := by
  obtain ⟨free, fields, stop, found, asked⟩ := specified
  exact ⟨fields, free, ⟨stop, found⟩, fun predicate member => .inl (asked predicate member)⟩

theorem Reaches.specified_iff (reaches : Reaches numeral key preds now db fields) :
    Specified numeral key preds now db ↔ ¬ ∃ predicate ∈ preds, predicate.Slips numeral fields := by
  obtain ⟨free, ⟨stop, found⟩, held⟩ := reaches
  constructor
  · rintro ⟨_, other, last, same, asked⟩ ⟨predicate, member, slips⟩
    cases found.symm.trans same
    exact (asked predicate member).not_slips slips
  · intro sound
    refine ⟨free, fields, stop, found, fun predicate member => ?_⟩
    exact (held predicate member).resolve_right fun slips => sound ⟨predicate, member, slips⟩

theorem Reaches.decided_iff (reaches : Reaches numeral key preds now db fields) :
    Decided numeral key ttl preds now db ↔
      (ttl = 0 ↔ ∃ predicate ∈ preds, predicate.Slips numeral fields) ∧ (ttl ≠ 0 → Countable key now db) := by
  obtain ⟨free, ⟨stop, found⟩, held⟩ := reaches
  constructor
  · exact fun decided => decided free fields stop found held
  · intro agreed _ other last same _
    cases found.symm.trans same
    exact agreed

/-- The script grants exactly where the conditions ask for it and otherwise leaves the store
as it is, if and only if `Decided` holds. -/
theorem grants_as_specified (given : preds ≠ []) (data : HashData key now db) :
    ((Grants numeral key token ttl preds now db ↔ Specified numeral key preds now db) ∧
      (¬ Grants numeral key token ttl preds now db →
        ((guarded (passes numeral) key token ttl preds).exec now db).2 = db)) ↔
    Decided numeral key ttl preds now db := by
  by_cases reached : ∃ fields, Reaches numeral key preds now db fields
  · obtain ⟨fields, reaches⟩ := reached
    rw [reaches.specified_iff, reaches.decided_iff, Grants]
    rcases reaches.outcome given token ttl with
      ⟨zero, ran⟩ | ⟨positive, counts, fence, after, ran⟩ | ⟨positive, miscounts, fault, ran⟩
    · subst zero
      simp [ran]
    · simp [ran, positive, counts]
    · have changed : db.put key ⟨.string (.raw token), some (now + ttl)⟩ ≠ db := by
        intro same
        have live : now < now + ttl := Nat.lt_add_of_pos_right (Nat.pos_of_ne_zero positive)
        have stored : (db.put key ⟨.string (.raw token), some (now + ttl)⟩).lookup now key =
            some ⟨.string (.raw token), some (now + ttl)⟩ := Keyspace.lookup_put_live live
        rw [same, reaches.1] at stored
        contradiction
      simp [ran, positive, miscounts, changed]
  · have unspecified : ¬ Specified numeral key preds now db := fun specified => reached specified.reaches
    have ran : (guarded (passes numeral) key token ttl preds).exec now db = (.ok (0, 0), db) :=
      exec_refused data (not_exists.mp reached)
    have decided : Decided numeral key ttl preds now db := fun free fields stop found held =>
      absurd ⟨fields, free, ⟨stop, found⟩, held⟩ reached
    simp [Grants, ran, unspecified, decided]

end

/-- A store with nothing but the data of `job`. -/
def withData (fields : Hash) : Keyspace := fun name => if name = "job:data" then some ⟨.hash fields, none⟩ else none

theorem hashData_withData (fields : Hash) (now : Nat) : HashData "job" now (withData fields) := by
  intro entry found
  obtain ⟨stored, _⟩ := Keyspace.lookup_eq_some.mp found
  exact ⟨fields, none, (Option.some.inj stored).symm⟩

/-- Five in stock, more than one asked for. -/
theorem grants_above_threshold :
    (Grants (fun _ => none) "job" "me" 1000 [.fieldGt "stock" 1] 0
      (withData ((∅ : Hash).insert "stock" (.int 5))) ↔
    Specified (fun _ => none) "job" [.fieldGt "stock" 1] 0 (withData ((∅ : Hash).insert "stock" (.int 5)))) ∧
    [(Predicate.fieldGt "stock" 1 : Predicate Int)] ≠ [] := by
  have data := hashData_withData ((∅ : Hash).insert "stock" (.int 5)) 0
  refine ⟨((grants_as_specified (by simp) data).mpr ?_).1, by simp⟩
  rintro _ fields stop found _
  cases found
  constructor
  · simp [Predicate.Slips, sentinel]
  · intro _ entry counter
    cases counter

/-- No stock at all passes a threshold below the sentinel. -/
theorem missing_field_grants : ¬ ∀ (numeral : String → Option Int) (key token : String) (ttl : Nat)
    (preds : List (Predicate Int)) (now : Nat) (db : Keyspace), preds ≠ [] → HashData key now db →
    (Grants numeral key token ttl preds now db ↔ Specified numeral key preds now db) := by
  intro always
  have granted : Grants (fun _ => none) "job" "me" 1000 [.fieldGt "stock" (-1000000)] 0
      (withData ((∅ : Hash).insert "name" (.raw "bolt"))) := ⟨1, rfl⟩
  obtain ⟨_, fields, stop, found, asked⟩ :=
    (always _ _ _ _ _ _ _ (by simp) (hashData_withData _ _)).mp granted
  cases found
  obtain ⟨number, numeric, _⟩ := asked _ List.mem_cons_self
  cases numeric

end Palisade.Semantic
