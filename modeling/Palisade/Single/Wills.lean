import Palisade.Single.Succession

/-! What testaments say. Beside the store the state keeps the words that were accepted, the
newest first, each with whom the lock named at that moment; no script reads them. -/
namespace Palisade.Wills
open Redis Single Transition Script Testament

/-- Whom `GET` names for the lock. -/
def owner (key : String) (now : Nat) (db : Keyspace) : Option String :=
  match ((Script.get key).exec now db).1 with
  | .ok payload => payload.map Semantic.text
  | .error _ => none

inductive Word where
  | said (author : String) (payload : Payload) (stop : Nat)
  | struck (author : String)
  deriving DecidableEq

def Word.author : Word → String
  | .said author _ _ | .struck author => author

structure State where
  now : Nat
  db : Keyspace
  words : List (Word × Option String)

def State.wait (s : State) (delay : Nat) : State := { s with now := s.now + delay }

def State.act (key : String) (s : State) : Testament.Operation → State
  | .acquire token ttl fenceTtl =>
    { s with db := ((Single.acquire key (fenceKeyFor key) token ttl fenceTtl).exec s.now s.db).2 }
  | .extend token ttl fenceTtl =>
    { s with db := ((Single.extend key (fenceKeyFor key) token ttl fenceTtl).exec s.now s.db).2 }
  | .release token => { s with db := ((Single.release key token).exec s.now s.db).2 }
  | .setTestament token ttl payload =>
    match setTestament key token ttl payload s.now s.db with
    | (.ok _, db) => { s with
        db
        words := (.said token payload (s.now + ttl.asMillisU64), owner key s.now s.db) :: s.words }
    | (.error _, db) => { s with db }
  | .clearTestament token =>
    match (willDel key (willKeyFor key) token).exec s.now s.db with
    | (.ok 1, db) => { s with db, words := (.struck token, owner key s.now s.db) :: s.words }
    | (_, db) => { s with db }
  | .readTestament => s

/-- Runs from a key without a will. -/
def wills (key : String) : Machine State Testament.Timed where
  initial s := s.db (willKeyFor key) = none ∧ s.words = []
  step s timed := some ((s.wait timed.delay).act key timed.operation)

/-- The last word, for as long as it was to last. -/
def shown (instant : Nat) : List (Word × Option String) → Option Payload
  | (.said _ payload stop, _) :: _ => if instant < stop then some payload else none
  | _ => none

section
variable {key token : String} {now : Nat} {db : Keyspace}

theorem exec_get (key : String) (now : Nat) (db : Keyspace) :
    (∃ fault, (Script.get key).exec now db = (.error fault, db) ∧ owner key now db = none) ∨
      ∃ found, (Script.get key).exec now db = (.ok found, db) ∧ owner key now db = found.map Semantic.text := by
  have kept := reads_get key now db
  rcases ran : (Script.get key).exec now db with ⟨reply, after⟩
  rw [ran] at kept
  subst kept
  cases reply with
  | error fault => exact .inl ⟨fault, rfl, by rw [owner, ran]⟩
  | ok found => exact .inr ⟨found, rfl, by rw [owner, ran]⟩

/-- The will is set exactly for the token that the lock names, with a lease. -/
theorem setTestament_cases (key token : String) (ttl : Duration) (payload : Payload) (now : Nat) (db : Keyspace) :
    ((owner key now db = some token ∧ ttl.asMillisU64 ≠ 0) ∧ setTestament key token ttl payload now db =
      (.ok (), db.put (willKeyFor key) ⟨.string payload, some (now + ttl.asMillisU64)⟩)) ∨
    (¬ (owner key now db = some token ∧ ttl.asMillisU64 ≠ 0) ∧
      ∃ error, setTestament key token ttl payload now db = (.error error, db)) := by
  unfold setTestament willSet
  rcases exec_get key now db with ⟨fault, ran, unknown⟩ | ⟨found, ran, known⟩
  · exact .inr ⟨by simp [unknown], by simp [ran, setReply]⟩
  · rw [known]
    by_cases own : found.map Semantic.text = some token
    · obtain zero | positive := Nat.eq_zero_or_pos ttl.asMillisU64
      · exact .inr ⟨by simp [zero], by simp [ran, own, zero, setPx, setReply, -Option.map_eq_some_iff]⟩
      · exact .inl ⟨⟨own, Nat.ne_of_gt positive⟩, by simp [ran, own, exec_setPx _ positive, setReply, -Option.map_eq_some_iff]⟩
    · exact .inr ⟨fun both => own both.1, by simp [ran, own, setReply, -Option.map_eq_some_iff]⟩

theorem willDel_cases (key token : String) (now : Nat) (db : Keyspace) :
    (owner key now db = some token ∧ ∃ after, (willDel key (willKeyFor key) token).exec now db = (.ok 1, after) ∧
      ∀ instant, now ≤ instant → after.lookup instant (willKeyFor key) = none) ∨
    (owner key now db ≠ some token ∧ ∃ reply, reply ≠ .ok 1 ∧ (willDel key (willKeyFor key) token).exec now db = (reply, db)) := by
  unfold willDel
  rcases exec_get key now db with ⟨fault, ran, unknown⟩ | ⟨found, ran, known⟩
  · exact .inr ⟨by simp [unknown], .error fault, by simp, by simp [ran]⟩
  · rw [known]
    by_cases own : found.map Semantic.text = some token
    · refine .inl ⟨own, ?_⟩
      cases there : db.lookup now (willKeyFor key) with
      | none => exact ⟨db, by simp [ran, own, exec_del, there, -Option.map_eq_some_iff],
        fun instant later => Keyspace.lookup_missing later there⟩
      | some entry => exact ⟨db.erase (willKeyFor key), by simp [ran, own, exec_del, there, -Option.map_eq_some_iff],
        fun _ _ => Keyspace.lookup_erase_self⟩
    · exact .inr ⟨own, .ok 0, by simp, by simp [ran, own, -Option.map_eq_some_iff]⟩

/-- Under the will's name is the last word, and every word is that of whom the lock named. -/
structure Inv (key : String) (s : State) : Prop where
  said : ∀ instant, s.now ≤ instant →
    (s.db.lookup instant (willKeyFor key)).map Entry.value = (shown instant s.words).map Value.string
  authors : ∀ word ∈ s.words, word.2 = some word.1.author

variable {s : State}

theorem Inv.wait (inv : Inv key s) (delay : Nat) : Inv key (s.wait delay) :=
  ⟨fun instant later => inv.said instant (le_trans (Nat.le_add_right _ _) later), inv.authors⟩

/-- The scripts of the mutex leave the will alone. -/
theorem Inv.within {α : Type} {script : Script α} (inv : Inv key s) (within : script.Within {key, fenceKeyFor key}) :
    Inv key { s with db := (script.exec s.now s.db).2 } := by
  have same : (script.exec s.now s.db).2 (willKeyFor key) = s.db (willKeyFor key) :=
    within _ (by simp [willKeyFor_ne, willKeyFor_ne_fenceKeyFor]) s.now s.db
  refine ⟨fun instant later => ?_, inv.authors⟩
  rw [Keyspace.lookup_congr same]
  exact inv.said instant later

theorem Inv.act (inv : Inv key s) (operation : Testament.Operation) : Inv key (s.act key operation) := by
  cases operation with
  | acquire => exact inv.within (Names.mutex_acquire_within (by simp) (by simp) _)
  | extend => exact inv.within (Names.mutex_extend_within (by simp) (by simp) _)
  | release => exact inv.within (Names.mutex_release_within (by simp))
  | readTestament => exact inv
  | setTestament token ttl payload =>
    rcases setTestament_cases key token ttl payload s.now s.db with ⟨⟨own, lease⟩, ran⟩ | ⟨_, error, ran⟩
    · simp only [State.act, ran]
      refine ⟨fun instant later => ?_, List.forall_mem_cons.mpr ⟨own, inv.authors⟩⟩
      by_cases early : instant < s.now + ttl.asMillisU64
      · simp [Keyspace.lookup_put_live early, shown, early]
      · simp [shown, early]
    · simpa only [State.act, ran] using inv
  | clearTestament token =>
    rcases willDel_cases key token s.now s.db with ⟨own, after, ran, gone⟩ | ⟨_, reply, other, ran⟩
    · simp only [State.act, ran]
      refine ⟨fun instant later => ?_, List.forall_mem_cons.mpr ⟨own, inv.authors⟩⟩
      simp [gone instant later, shown]
    · simpa only [State.act, ran] using inv

theorem inv_reachable (reach : (wills key).Reachable s) : Inv key s := by
  refine Machine.Reachable.invariant ?_ ?_ reach
  · rintro s ⟨absent, silent⟩
    refine ⟨fun instant _ => ?_, by simp [silent]⟩
    have missing : s.db.lookup instant (willKeyFor key) = none := by simp [Keyspace.lookup, absent]
    simp [missing, silent, shown]
  · rintro s timed t inv ⟨⟩
    exact (inv.wait timed.delay).act timed.operation

/-- Whatever holders come and go, a reader finds the last word of whom the lock named when it
was spoken, until it runs out or whom the lock names strikes it; nobody else is heard. -/
theorem last_word (reach : (wills key).Reachable s) {instant : Nat} (later : s.now ≤ instant) :
    readTestament key instant s.db = .ok (shown instant s.words) ∧
    (∀ word ∈ s.words, word.2 = some word.1.author) ∧
    ∀ token ttl payload, (setTestament key token ttl payload instant s.db).1 = .ok () ↔
      owner key instant s.db = some token ∧ ttl.asMillisU64 ≠ 0 := by
  have inv := inv_reachable reach
  refine ⟨?_, inv.authors, fun token ttl payload => ?_⟩
  · have said := inv.said instant later
    cases word : shown instant s.words with
    | none =>
      rw [word, Option.map_none, Option.map_eq_none_iff] at said
      exact readTestament_none said
    | some payload =>
      rw [word] at said
      obtain ⟨⟨value, stop⟩, found, rfl⟩ := Option.map_eq_some_iff.mp said
      simp [readTestament, exec_get_string found, readReply]
  · rcases setTestament_cases key token ttl payload instant s.db with ⟨own, ran⟩ | ⟨other, error, ran⟩
    · simp [ran, own]
    · simp [ran, other]

end

/-- A leader that says where it stands and crashes, and its successor. -/
def crash : List Testament.Timed :=
  [⟨0, .acquire "a" 1000 10000⟩, ⟨1, .setTestament "a" second (.raw "step 3")⟩, ⟨500, .setTestament "b" second (.raw "mine")⟩,
    ⟨499, .acquire "b" 1000 10000⟩]

theorem crash_last_word : ∃ s : State, owner "job" s.now s.db = some "b" ∧
    readTestament "job" s.now s.db = .ok (some (.raw "step 3")) := by
  obtain ⟨s, reach, held, words⟩ := (wills "job").exists_reachableWhen (fun _ _ => True)
    (fun s => owner "job" s.now s.db = some "b" ∧ shown s.now s.words = some (.raw "step 3"))
    (s := ⟨0, fun _ => none, []⟩) ⟨rfl, rfl⟩ crash (by decide +kernel)
  exact ⟨s, held, words ▸ (last_word reach (Nat.le_refl _)).1⟩

end Palisade.Wills
