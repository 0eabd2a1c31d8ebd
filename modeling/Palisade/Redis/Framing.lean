import Mathlib.Data.Set.Basic
import Palisade.Redis.Hoare

/-! Footprints of scripts. A script stays within a set of names when no run of it, also one
that stops at a fault, changes the entry of a name outside. -/
namespace Redis

namespace Keyspace
variable {db after : Keyspace} {now : Nat} {key other : String}

theorem Cut.of_ne (cut : db.Cut now key after) (distinct : other ≠ key) : after other = db other := by
  cases cut with
  | same => rfl
  | gone => exact erase_of_ne distinct
  | left => exact overwrite_of_ne distinct

end Keyspace

namespace Script
variable {α β : Type} {names : Set String} {key : String} {script : Script α}

def Within (names : Set String) (script : Script α) : Prop := ∀ name ∉ names, script.Leaves name

theorem within_bind {next : α → Script β} (first : script.Within names) (rest : ∀ a, (next a).Within names) :
    (script >>= next).Within names :=
  fun name outside => leaves_bind (first name outside) fun a => rest a name outside

theorem Reads.within (reads : script.Reads) : script.Within names :=
  fun name _ now db => congrFun (reads now db) name

/-- A script whose every run changes one name at most. -/
theorem within_of_wp (inside : key ∈ names) (ran : ∀ now db, wp now script
    (fun _ after => ∀ other ≠ key, after other = db other) (fun after => ∀ other ≠ key, after other = db other) db) :
    script.Within names :=
  fun name outside now db => (ran now db).state name fun same => outside (same ▸ inside)

section
variable (inside : key ∈ names)
include inside

theorem within_incr : (incr key).Within names :=
  within_of_wp inside fun _ _ => wp_incr (fun _ _ => rfl) fun _ _ _ => Keyspace.overwrite_of_ne

theorem within_pexpire (ms : Nat) : (pexpire key ms).Within names :=
  within_of_wp inside fun _ _ => wp_pexpire (fun _ _ _ => rfl) fun _ _ => Keyspace.refresh_of_ne

theorem within_del : (del key).Within names :=
  within_of_wp inside fun _ _ => wp_del (fun _ _ _ => rfl) fun _ => Keyspace.erase_of_ne

theorem within_setNxPx (payload : Payload) (ms : Nat) : (setNxPx key payload ms).Within names :=
  within_of_wp inside fun _ _ => wp_setNxPx (fun _ _ => rfl) (fun _ _ => rfl) fun _ _ _ => Keyspace.put_of_ne

theorem within_setPx (payload px : Payload) : (setPx key payload px).Within names :=
  within_of_wp inside fun _ _ => wp_setPx (fun _ _ => rfl) fun _ _ _ => Keyspace.put_of_ne

theorem within_lpush (item : String) : (lpush key item).Within names :=
  within_of_wp inside fun _ _ => wp_lpush (fun _ _ => rfl) fun _ _ => Keyspace.overwrite_of_ne

theorem within_rpop : (rpop key).Within names :=
  within_of_wp inside fun _ _ => wp_rpop (fun _ _ => rfl) fun _ _ cut _ => cut.of_ne

theorem within_lrem (item : String) : (lrem key item).Within names := by
  refine within_of_wp inside fun now db => wp_bind ((reads_list key).wp (fun _ _ => rfl) fun items seen => ?_)
  split
  · next member =>
    have live := live_of_list seen (List.ne_nil_of_mem member)
    exact wp_bind (wp_shorten live fun _ cut _ => cut.of_ne)
  · exact fun _ _ => rfl

end

end Script
end Redis
