import Mathlib.Data.Set.Basic
import Palisade.Redis.Hoare

/-! Names that never hold an entry without an expiry. A command may leave its own key
without one for the rest of a script, until a later command sets it. -/
namespace Redis

namespace Keyspace
variable {names : Set String} {db after : Keyspace} {now : Nat} {key : String} {entry : Entry}

def Mortal (names : Set String) (db : Keyspace) : Prop :=
  ∀ name ∈ names, ∀ entry, db name = some entry → entry.expireAt ≠ none

namespace Mortal

/-- What holds of the other names and of the key itself. -/
theorem close (loose : Mortal (names \ {key}) db) (others : ∀ other ≠ key, after other = db other)
    (here : ∀ entry, after key = some entry → entry.expireAt ≠ none) : Mortal names after := by
  intro name member entry stored
  by_cases same : name = key
  · subst same
    exact here entry stored
  · rw [others name same] at stored
    exact loose name ⟨member, same⟩ entry stored

theorem mono {fewer : Set String} (mortal : Mortal names db) (subset : fewer ⊆ names) : Mortal fewer db :=
  fun name member => mortal name (subset member)

theorem loosen (mortal : Mortal names db) : Mortal (names \ {key}) db :=
  fun name member => mortal name member.1

theorem put (mortal : Mortal names db) (finite : entry.expireAt ≠ none) : Mortal names (db.put key entry) := by
  refine mortal.loosen.close (fun _ => put_of_ne) fun other stored => ?_
  rw [put_self] at stored
  cases stored
  exact finite

theorem erase (loose : Mortal (names \ {key}) db) : Mortal names (db.erase key) :=
  loose.close (fun _ => erase_of_ne) (by simp)

theorem refresh (loose : Mortal (names \ {key}) db) (value : Value) (ms : Nat) :
    Mortal names (db.refresh now key value ms) := by
  refine loose.close (fun _ => refresh_of_ne) fun entry stored => ?_
  rw [refresh_self, refreshed_eq_some] at stored
  simp [stored.2]

/-- An entry that is not seen has expired. -/
theorem of_missing (loose : Mortal (names \ {key}) db) (missing : db.lookup now key = none) : Mortal names db := by
  refine loose.close (fun _ _ => rfl) fun entry stored immortal => ?_
  simpa [Entry.expired, immortal] using lookup_eq_none.mp missing entry stored

theorem overwrite (mortal : Mortal names db) (value : Value) :
    Mortal (names \ {key}) (db.overwrite now key value) := by
  intro name member entry stored
  rw [overwrite_of_ne member.2] at stored
  exact mortal name member.1 entry stored

theorem overwrite_live (mortal : Mortal names db) (live : (db.lookup now key).isSome) (value : Value) :
    Mortal names (db.overwrite now key value) := by
  intro name member entry stored
  by_cases same : name = key
  · subst same
    obtain ⟨before, found⟩ := Option.isSome_iff_exists.mp live
    have finite := mortal name member before (lookup_eq_some.mp found).1
    simp only [Keyspace.overwrite, found, put_self, Option.some.injEq] at stored
    cases stored
    exact finite
  · rw [overwrite_of_ne same] at stored
    exact mortal name member entry stored

theorem cut (mortal : Mortal names db) (cut : db.Cut now key after) : Mortal names after := by
  cases cut with
  | same => exact mortal
  | gone => exact mortal.loosen.erase
  | left live value => exact mortal.overwrite_live live value

end Mortal
end Keyspace

namespace Script

/-- Run at `now`, the script leaves an expiry on everything under the names, also where it
stops at a fault. -/
abbrev Keeps {α : Type} (names : Set String) (now : Nat) (script : Script α) (db : Keyspace) : Prop :=
  wp now script (fun _ => Keyspace.Mortal names) (Keyspace.Mortal names) db

variable {names : Set String} {db : Keyspace} {now : Nat} {key : String}

section
variable {E : Keyspace → Prop} {Q : Nat → Keyspace → Prop} (loose : db.Mortal (names \ {key}))
  (next : ∀ answer after, after.Mortal names → (∀ other ≠ key, after other = db other) → Q answer after)
include loose next

theorem wp_pexpire_mortal {ms : Nat} : wp now (pexpire key ms) Q E db :=
  wp_pexpire (fun missing => next 0 db (loose.of_missing missing) fun _ _ => rfl)
    fun value => next 1 _ (loose.refresh value ms) fun _ => Keyspace.refresh_of_ne

theorem wp_del_mortal : wp now (del key) Q E db :=
  wp_del (fun missing => next 0 db (loose.of_missing missing) fun _ _ => rfl)
    (next 1 _ loose.erase fun _ => Keyspace.erase_of_ne)

end

/-- A script that ends by setting an expiry. -/
theorem keeps_pexpire {α : Type} {ms : Nat} {a : α} (loose : db.Mortal (names \ {key})) :
    Keeps names now (do let _ ← pexpire key ms; return a) db :=
  wp_bind (wp_pexpire_mortal loose fun _ _ mortal _ => mortal)

/-- A script that ends by deleting its key. -/
theorem keeps_del {α : Type} {a : α} (loose : db.Mortal (names \ {key})) :
    Keeps names now (do let _ ← del key; return a) db :=
  wp_bind (wp_del_mortal loose fun _ _ mortal _ => mortal)

/-- A script that ends by counting under a live key. -/
theorem keeps_incr {α : Type} {a : α} (mortal : db.Mortal names) (live : (db.lookup now key).isSome) :
    Keeps names now (do return (a, ← incr key)) db :=
  wp_bind (wp_incr mortal fun _ value => mortal.overwrite_live live value)

end Script
end Redis
