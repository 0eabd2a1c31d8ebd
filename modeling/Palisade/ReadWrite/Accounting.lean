import Palisade.Transition
import Palisade.ReadWrite.Scripts

/-! The accounting of the read-write hash. The five scripts run in any order,
with any tokens, leases and delays between them, so that releases may be stale
or repeated and the hash may expire between two of them. -/
namespace Palisade.ReadWrite
open Redis Single Transition

structure Store where
  now : Nat
  db : Keyspace

/-- One script of one token, `delay` after the script before it. -/
structure Call where
  delay : Nat
  token : String
  command : Command
  deriving DecidableEq

def Store.run (key : String) (s : Store) (c : Call) : Store :=
  ⟨s.now + c.delay, ((c.command.script key c.token).exec (s.now + c.delay) s.db).2⟩

/-- The hash starts out absent, the fence counter absent or a number. -/
def scripts (key : String) : Machine Store Call where
  initial s := s.db key = none ∧ Counts key s.db
  step s c := some (s.run key c)

theorem sound_reachable {key : String} {s : Store} (reach : (scripts key).Reachable s) :
    Sound key s.db := by
  refine Machine.Reachable.invariant (P := fun s => Sound key s.db) ?_ ?_ reach
  · rintro s ⟨absent, counts⟩
    exact ⟨by simp [absent], counts⟩
  · intro s c t sound stepped
    cases Option.some.inj stepped
    obtain ⟨status, fence, after, ran, effect, counts⟩ :=
      sound.answers (s.now + c.delay) c.token c.command
    have left : (s.run key c).db = after := by simp only [Store.run, ran]
    rw [left]
    exact effect.sound sound counts

section
variable {key token : String} {db : Keyspace}

/-- A read release by a token that is no registered reader. -/
theorem Sound.readRelease_denied (sound : Sound key db) (now refresh : Nat)
    (stranger : ∀ fields stop, Reading key db now fields stop → ¬ Registered fields token) :
    Denied key db now token (.readRelease refresh) := by
  rcases sound.view now with absent | ⟨fields, stop, reading⟩ | writing
  · exact .inl absent
  · exact .inr (.inl ⟨fields, stop, reading, stranger fields stop reading⟩)
  · exact .inr (.inr writing)

/-- A write release by a token that is not the owner. -/
theorem Sound.writeRelease_denied (sound : Sound key db) (now : Nat)
    (stranger : ∀ fields owner stop, Writing key db now fields owner stop → owner ≠ token) :
    Denied key db now token .writeRelease := by
  rcases sound.view now with absent | reading | ⟨fields, owner, stop, writing⟩
  · exact .inl absent
  · exact .inr (.inl reading)
  · exact .inr (.inr ⟨fields, owner, stop, writing, stranger fields owner stop writing⟩)

end

/-- At every instant the hash is absent, counts exactly its registered readers, or
names its writer alone; a release by a token without the hold it gives up
answers -1 and changes nothing. -/
theorem hash_accounts {key : String} {s : Store} (reach : (scripts key).Reachable s) (now : Nat) :
    (Absent key s.db now ∨ (∃ fields stop, Reading key s.db now fields stop) ∨
      ∃ fields owner stop, Writing key s.db now fields owner stop) ∧
    (∀ token refresh,
      (∀ fields stop, Reading key s.db now fields stop → ¬ Registered fields token) →
      ((Command.readRelease refresh).script key token).exec now s.db = (.ok (-1, 0), s.db)) ∧
    ∀ token, (∀ fields owner stop, Writing key s.db now fields owner stop → owner ≠ token) →
      (Command.writeRelease.script key token).exec now s.db = (.ok (-1, 0), s.db) := by
  have sound := sound_reachable reach
  constructor
  · exact sound.view now
  · constructor
    · intro token refresh stranger
      exact Script.exec_bind_pure (exec_readRelease_denied (sound.readRelease_denied now refresh stranger))
    · intro token stranger
      exact Script.exec_bind_pure (exec_writeRelease_denied (sound.writeRelease_denied now stranger))

/-- Two readers, of which the first leaves twice: the second is still counted. -/
theorem hash_accounts_repeated_release : ∃ s : Store,
    (Absent "cfg" s.db 2 ∨ (∃ fields stop, Reading "cfg" s.db 2 fields stop) ∨
      ∃ fields owner stop, Writing "cfg" s.db 2 fields owner stop) ∧
    s.db.lookup 2 "cfg" =
      some ⟨.hash (departed (joined (firstReader "a") "b") "a"), some 1001⟩ ∧
    ((Command.readRelease 500).script "cfg" "a").exec 2 s.db = (.ok (-1, 0), s.db) := by
  obtain ⟨s, reach, left⟩ := (scripts "cfg").exists_reachableWhen (fun _ _ => True)
    (fun s => s.db.lookup 2 "cfg" =
      some ⟨.hash (departed (joined (firstReader "a") "b") "a"), some 1001⟩)
    (s := ⟨0, fun _ => none⟩) ⟨rfl, by simp [Counts]⟩
    [⟨0, "a", .readAcquire 1000⟩, ⟨0, "b", .readAcquire 1000⟩, ⟨1, "a", .readRelease 1000⟩,
      ⟨1, "a", .readRelease 1000⟩]
    (by decide)
  obtain ⟨shape, readers, _⟩ := hash_accounts reach 2
  refine ⟨s, shape, left, readers "a" 500 ?_⟩
  rintro fields stop ⟨found, _⟩
  cases left.symm.trans found
  exact AList.lookup_eq_none.mp (by decide)

end Palisade.ReadWrite
