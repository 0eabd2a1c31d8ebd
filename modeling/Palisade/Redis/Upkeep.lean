import Mathlib.Data.Set.Basic
import Palisade.Redis.Hoare

/-! Conditions on a store that scripts keep up. A script may leave them for the key it works
on, after it has written a value there and until it has set the expiry; it works on some of
the keys only and sets only some of the expiries. -/
namespace Redis

/-- `Held` is the condition, and `Loose` what holds while a key waits for its expiry. -/
structure Upkeep (now : Nat) where
  keys : Set String
  allowed : Nat → Prop
  Held : Keyspace → Prop
  Loose : String → Keyspace → Prop
  loosen : ∀ {key db}, key ∈ keys → Held db → Loose key db
  overwrite : ∀ {key db}, key ∈ keys → Held db → ∀ value, Loose key (db.overwrite now key value)
  overwrite_live : ∀ {key db}, key ∈ keys → Held db → (db.lookup now key).isSome → ∀ value,
    Held (db.overwrite now key value)
  put : ∀ {key db ms}, key ∈ keys → Held db → allowed ms → ∀ value, Held (db.put key ⟨value, some (now + ms)⟩)
  put_loose : ∀ {key other db ms}, key ∈ keys → Loose other db → allowed ms → ∀ value,
    Loose other (db.put key ⟨value, some (now + ms)⟩)
  refresh : ∀ {key db ms}, key ∈ keys → Loose key db → allowed ms → ∀ value, Held (db.refresh now key value ms)
  erase : ∀ {key db}, key ∈ keys → Loose key db → Held (db.erase key)
  missing : ∀ {key db}, key ∈ keys → Loose key db → db.lookup now key = none → Held db

namespace Upkeep
open Script
variable {now : Nat} (u : Upkeep now) {db : Keyspace} {key : String}

/-- The script keeps the condition up, also where it stops at a fault. -/
abbrev Keeps {α : Type} (script : Script α) (db : Keyspace) : Prop := wp now script (fun _ => u.Held) u.Held db

variable {u}

theorem cut {after : Keyspace} (inside : key ∈ u.keys) (held : u.Held db) (cut : db.Cut now key after) : u.Held after := by
  cases cut with
  | same => exact held
  | gone => exact u.erase inside (u.loosen inside held)
  | left live value => exact u.overwrite_live inside held live value

/-- What follows a script that keeps the condition up. -/
theorem Keeps.wp {α : Type} {script : Script α} {Q : α → Keyspace → Prop} {E : Keyspace → Prop}
    (keeps : u.Keeps script db) (fault : ∀ db, u.Held db → E db) (next : ∀ a db, u.Held db → Q a db) :
    wp now script Q E db := by
  unfold Keeps Script.wp at keeps
  unfold Script.wp
  rcases ran : script.exec now db with ⟨reply, after⟩
  rw [ran] at keeps
  cases reply with
  | ok a => exact next a after keeps
  | error _ => exact fault after keeps

section
variable {E : Keyspace → Prop} (inside : key ∈ u.keys)
include inside

theorem keeps_lrem (held : u.Held db) (item : String) : u.Keeps (lrem key item) db := by
  refine wp_bind ((reads_list key).wp held fun items seen => ?_)
  split
  · next member =>
    have live := live_of_list seen (List.ne_nil_of_mem member)
    exact wp_bind (wp_shorten live fun _ shorter => cut inside held shorter)
  · exact held

theorem wp_pexpire {Q : Nat → Keyspace → Prop} {ms : Nat} (loose : u.Loose key db) (allowed : u.allowed ms)
    (next : ∀ answer after, u.Held after → Q answer after) : wp now (pexpire key ms) Q E db :=
  Script.wp_pexpire (fun missing => next 0 db (u.missing inside loose missing))
    fun value => next 1 _ (u.refresh inside loose allowed value)

theorem wp_del {Q : Nat → Keyspace → Prop} (loose : u.Loose key db)
    (next : ∀ answer after, u.Held after → Q answer after) : wp now (del key) Q E db :=
  Script.wp_del (fun missing => next 0 db (u.missing inside loose missing)) (next 1 _ (u.erase inside loose))

theorem wp_setPx {Q : Unit → Keyspace → Prop} {payload : Payload} {ms : Nat} (held : u.Held db) (fault : E db)
    (allowed : u.allowed ms) (next : ∀ after, u.Held after → Q () after) :
    wp now (setPx key payload (.int ms)) Q E db := by
  obtain rfl | positive := Nat.eq_zero_or_pos ms
  · exact fault
  · simp only [wp, exec_setPx payload positive]
    exact next _ (u.put inside held allowed _)

theorem wp_setNxPx {Q : Bool → Keyspace → Prop} {payload : Payload} {ms : Nat} (held : u.Held db) (fault : E db)
    (allowed : u.allowed ms) (refused : Q false db) (taken : ∀ after, u.Held after → Q true after) :
    wp now (setNxPx key payload ms) Q E db := by
  unfold wp
  rw [exec_setNxPx]
  by_cases zero : ms = 0
  · rw [if_pos zero]
    exact fault
  · rw [if_neg zero]
    cases db.lookup now key with
    | none => exact taken _ (u.put inside held allowed _)
    | some entry => exact refused

/-- A script that ends by setting an expiry. -/
theorem keeps_pexpire {α : Type} {ms : Nat} {a : α} (loose : u.Loose key db) (allowed : u.allowed ms) :
    u.Keeps (do let _ ← pexpire key ms; return a) db :=
  wp_bind (wp_pexpire inside loose allowed fun _ _ held => held)

/-- A script that ends by deleting its key. -/
theorem keeps_del {α : Type} {a : α} (loose : u.Loose key db) : u.Keeps (do let _ ← del key; return a) db :=
  wp_bind (wp_del inside loose fun _ _ held => held)

end
end Upkeep

namespace Keyspace
variable {names : Set String} {db after : Keyspace} {now limit : Nat} {key : String} {entry : Entry}

/-- Everything under the names ends by a limit. -/
def EndsBy (limit : Nat) (names : Set String) (db : Keyspace) : Prop :=
  ∀ name ∈ names, ∀ entry, db name = some entry → ∃ stop, entry.expireAt = some stop ∧ stop ≤ limit

namespace EndsBy

/-- What holds of the other names and of the key itself. -/
theorem close (loose : EndsBy limit (names \ {key}) db) (others : ∀ other ≠ key, after other = db other)
    (here : ∀ entry, after key = some entry → ∃ stop, entry.expireAt = some stop ∧ stop ≤ limit) :
    EndsBy limit names after := by
  intro name member entry stored
  by_cases same : name = key
  · subst same
    exact here entry stored
  · rw [others name same] at stored
    exact loose name ⟨member, same⟩ entry stored

theorem mono {later : Nat} (ends : EndsBy limit names db) (le : limit ≤ later) : EndsBy later names db := by
  intro name member entry stored
  obtain ⟨stop, expires, bound⟩ := ends name member entry stored
  exact ⟨stop, expires, bound.trans le⟩

theorem loosen (ends : EndsBy limit names db) : EndsBy limit (names \ {key}) db :=
  fun name member => ends name member.1

/-- From the limit on nothing is seen under the names. -/
theorem lookup_none (ends : EndsBy limit names db) (member : key ∈ names) (later : limit ≤ now) :
    db.lookup now key = none := by
  rw [lookup_eq_none]
  intro entry stored
  obtain ⟨stop, expires, bound⟩ := ends key member entry stored
  simpa [Entry.expired, expires] using bound.trans later

theorem put (ends : EndsBy limit names db) {value : Value} {stop : Nat} (within : stop ≤ limit) :
    EndsBy limit names (db.put key ⟨value, some stop⟩) := by
  refine ends.loosen.close (fun _ => put_of_ne) fun entry stored => ?_
  rw [put_self] at stored
  cases stored
  exact ⟨stop, rfl, within⟩

/-- Nothing outside the names matters. -/
theorem outside (ends : EndsBy limit names db) (other : key ∉ names) (others : ∀ name ≠ key, after name = db name) :
    EndsBy limit names after := by
  intro name member entry stored
  rw [others name fun same => other (same ▸ member)] at stored
  exact ends name member entry stored

end EndsBy
end Keyspace

/-- Scripts that set no expiry beyond the limit keep everything within it. -/
def endsBy (names : Set String) {limit now : Nat} (ahead : now ≤ limit) : Upkeep now where
  keys := Set.univ
  allowed ms := now + ms ≤ limit
  Held := Keyspace.EndsBy limit names
  Loose key := Keyspace.EndsBy limit (names \ {key})
  loosen _ ends := ends.loosen
  overwrite _ ends value := by
    intro name member entry stored
    rw [Keyspace.overwrite_of_ne member.2] at stored
    exact ends name member.1 entry stored
  overwrite_live {key db} _ ends live value := by
    obtain ⟨before, found⟩ := Option.isSome_iff_exists.mp live
    intro name member entry stored
    by_cases same : name = key
    · subst same
      simp only [Keyspace.overwrite, found, Keyspace.put_self, Option.some.injEq] at stored
      cases stored
      exact ends name member before (Keyspace.lookup_eq_some.mp found).1
    · rw [Keyspace.overwrite_of_ne same] at stored
      exact ends name member entry stored
  put _ ends allowed _ := ends.put allowed
  put_loose _ loose allowed _ := loose.put allowed
  refresh _ loose allowed value := by
    refine loose.close (fun _ => Keyspace.refresh_of_ne) fun entry stored => ?_
    rw [Keyspace.refresh_self, Keyspace.refreshed_eq_some] at stored
    exact ⟨_, by rw [stored.2], allowed⟩
  erase _ loose := loose.close (fun _ => Keyspace.erase_of_ne) (by simp)
  missing {key db} _ loose missing := by
    refine loose.close (fun _ _ => rfl) fun entry stored => ?_
    have expired := Keyspace.lookup_eq_none.mp missing entry stored
    obtain ⟨value, stop⟩ := entry
    cases stop with
    | none => contradiction
    | some stop =>
      rw [Entry.expired_some, decide_eq_true_eq] at expired
      exact ⟨stop, rfl, expired.trans ahead⟩

/-- Scripts that work on other keys change nothing under the names. -/
def untouched (names : Set String) (before : Keyspace) (now : Nat) : Upkeep now where
  keys := {key | key ∉ names}
  allowed _ := True
  Held db := ∀ name ∈ names, db name = before name
  Loose _ db := ∀ name ∈ names, db name = before name
  loosen _ same := same
  overwrite inside same _ name member :=
    (Keyspace.overwrite_of_ne (ne_of_mem_of_not_mem member inside)).trans (same name member)
  overwrite_live inside same _ _ name member :=
    (Keyspace.overwrite_of_ne (ne_of_mem_of_not_mem member inside)).trans (same name member)
  put inside same _ _ name member :=
    (Keyspace.put_of_ne (ne_of_mem_of_not_mem member inside)).trans (same name member)
  put_loose inside same _ _ name member :=
    (Keyspace.put_of_ne (ne_of_mem_of_not_mem member inside)).trans (same name member)
  refresh inside same _ _ name member :=
    (Keyspace.refresh_of_ne (ne_of_mem_of_not_mem member inside)).trans (same name member)
  erase inside same name member :=
    (Keyspace.erase_of_ne (ne_of_mem_of_not_mem member inside)).trans (same name member)
  missing _ same _ := same

end Redis
