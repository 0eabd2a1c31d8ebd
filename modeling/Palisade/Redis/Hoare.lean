import Palisade.Redis.Lists

/-! Weakest preconditions of scripts. A postcondition speaks about the answer and the
store after it; a second one about the store after a fault, where the effects of the
earlier commands stay. Beside the rules for sequences there is one for each group of
commands, by what they leave under their key. -/
namespace Redis

namespace Keyspace
variable {db : Keyspace} {now : Nat} {key other : String}

/-- A new value under a key, which keeps the expiry it has. -/
def overwrite (db : Keyspace) (now : Nat) (key : String) (value : Value) : Keyspace :=
  db.put key ⟨value, (db.lookup now key).bind Entry.expireAt⟩

theorem overwrite_of_ne {value : Value} (distinct : other ≠ key) : db.overwrite now key value other = db other :=
  put_of_ne distinct

/-- What a command that takes items out of a collection can leave of the store. -/
inductive Cut (db : Keyspace) (now : Nat) (key : String) : Keyspace → Prop where
  | same : Cut db now key db
  | gone : Cut db now key (db.erase key)
  | left (live : (db.lookup now key).isSome) (value : Value) : Cut db now key (db.overwrite now key value)

end Keyspace

namespace Script
variable {α β : Type}

/-- Run at `now`, the script answers with `Q` or stops at a fault with `E`. -/
def wp (now : Nat) (script : Script α) (Q : α → Keyspace → Prop) (E : Keyspace → Prop)
    (db : Keyspace) : Prop :=
  match script.exec now db with
  | (.ok a, after) => Q a after
  | (.error _, after) => E after

/-- A script that changes nothing. -/
def Reads (script : Script α) : Prop := ∀ now db, (script.exec now db).2 = db

section
variable {now : Nat} {db : Keyspace} {key : String} {script : Script α}
  {Q Q' : α → Keyspace → Prop} {R : β → Keyspace → Prop} {E : Keyspace → Prop}

theorem wp_bind {next : α → Script β}
    (first : wp now script (fun a => wp now (next a) R E) E db) : wp now (script >>= next) R E db := by
  unfold wp at first ⊢
  rw [exec_bind]
  rcases ran : script.exec now db with ⟨reply, after⟩
  rw [ran] at first
  cases reply with
  | ok a => exact first
  | error fault => exact first

theorem wp.mono (first : wp now script Q E db) (weaker : ∀ a after, Q a after → Q' a after) :
    wp now script Q' E db := by
  unfold wp at first ⊢
  rcases ran : script.exec now db with ⟨reply, after⟩
  rw [ran] at first
  cases reply with
  | ok a => exact weaker a after first
  | error fault => exact first

/-- One condition whichever way the script ends. -/
theorem wp.state {P : Keyspace → Prop} (first : wp now script (fun _ => P) P db) :
    P (script.exec now db).2 := by
  unfold wp at first
  rcases ran : script.exec now db with ⟨reply, after⟩
  rw [ran] at first
  cases reply with
  | ok a => exact first
  | error fault => exact first

theorem Reads.wp (reads : script.Reads) (fault : E db)
    (answer : ∀ a, (script.exec now db).1 = .ok a → Q a db) : wp now script Q E db := by
  have same := reads now db
  unfold Script.wp
  rcases ran : script.exec now db with ⟨reply, after⟩
  rw [ran] at same answer
  cases same
  cases reply with
  | ok a => exact answer a rfl
  | error _ => exact fault

end

theorem reads_pure (a : α) : (pure a : Script α).Reads := fun _ _ => rfl

theorem reads_fail (fault : Fault) : (fail fault : Script α).Reads := fun _ _ => rfl

theorem reads_bind {script : Script α} {next : α → Script β} (first : script.Reads)
    (rest : ∀ a, (next a).Reads) : (script >>= next).Reads := by
  intro now db
  have before := first now db
  rw [exec_bind]
  rcases ran : script.exec now db with ⟨reply, after⟩
  rw [ran] at before
  cases before
  cases reply with
  | ok a => exact rest a now _
  | error fault => rfl

section
variable (key name : String)

theorem reads_read : (read key).Reads := fun _ _ => rfl

theorem reads_time : time.Reads := fun _ _ => rfl

theorem reads_existsKey : (existsKey key).Reads := fun _ _ => rfl

theorem reads_get : (get key).Reads := by
  refine reads_bind (reads_read key) fun entry => ?_
  split
  · exact reads_pure _
  · exact reads_pure _
  · exact reads_fail _

theorem reads_hash : (hash key).Reads := by
  refine reads_bind (reads_read key) fun entry => ?_
  split
  · exact reads_pure _
  · exact reads_pure _
  · exact reads_fail _

theorem reads_hget : (hget key name).Reads := reads_bind (reads_hash key) fun _ => reads_pure _

theorem reads_hexists : (hexists key name).Reads := reads_bind (reads_hash key) fun _ => reads_pure _

theorem reads_zset : (zset key).Reads := by
  refine reads_bind (reads_read key) fun entry => ?_
  split
  · exact reads_pure _
  · exact reads_pure _
  · exact reads_fail _

theorem reads_zcard : (zcard key).Reads := reads_bind (reads_zset key) fun _ => reads_pure _

theorem reads_zscore : (zscore key name).Reads := reads_bind (reads_zset key) fun _ => reads_pure _

theorem reads_list : (list key).Reads := by
  refine reads_bind (reads_read key) fun entry => ?_
  split
  · exact reads_pure _
  · exact reads_pure _
  · exact reads_fail _

theorem reads_llen : (llen key).Reads := reads_bind (reads_list key) fun _ => reads_pure _

theorem reads_lpos : (lpos key name).Reads := reads_bind (reads_list key) fun _ => reads_pure _

theorem reads_lrangeLast : (lrangeLast key).Reads := reads_bind (reads_list key) fun _ => reads_pure _

theorem reads_required (argument : Option α) (fault : Fault) : (required argument fault).Reads := by
  cases argument with
  | some value => exact reads_pure value
  | none => exact reads_fail fault

end

/-! Commands that write a value under their key. -/

section
variable {now : Nat} {db : Keyspace} {key : String} {E : Keyspace → Prop} (fault : E db)
include fault

theorem wp_hset {Q : Unit → Keyspace → Prop} {values : List (String × Payload)}
    (next : ∀ value, Q () (db.overwrite now key value)) : wp now (hset key values) Q E db :=
  wp_bind ((reads_hash key).wp fault fun _ _ => next _)

theorem wp_hincrby {Q : Int → Keyspace → Prop} {name : String} {delta : Int}
    (next : ∀ count value, Q count (db.overwrite now key value)) :
    wp now (hincrby key name delta) Q E db := by
  refine wp_bind ((reads_hash key).wp fault fun fields _ => ?_)
  split
  · exact next _ _
  · exact next _ _
  · exact fault

theorem wp_zadd {Q : Unit → Keyspace → Prop} {member : String} {score : Nat}
    (next : ∀ value, Q () (db.overwrite now key value)) : wp now (zadd key member score) Q E db :=
  wp_bind ((reads_zset key).wp fault fun _ _ => next _)

theorem wp_lpush {Q : Unit → Keyspace → Prop} {item : String}
    (next : ∀ value, Q () (db.overwrite now key value)) : wp now (lpush key item) Q E db :=
  wp_bind ((reads_list key).wp fault fun _ _ => next _)

theorem wp_incr {Q : Int → Keyspace → Prop}
    (next : ∀ fence value, Q fence (db.overwrite now key value)) : wp now (incr key) Q E db := by
  unfold wp
  rw [exec_incr]
  match found : db.lookup now key with
  | none => simpa [Keyspace.overwrite, found] using next 1 (.string (.int 1))
  | some ⟨.string (.int count), _⟩ =>
    simpa [Keyspace.overwrite, found] using next (count + 1) (.string (.int (count + 1)))
  | some ⟨.string (.raw _), _⟩ => exact fault
  | some ⟨.hash _, _⟩ | some ⟨.zset _, _⟩ | some ⟨.list _, _⟩ => exact fault

theorem wp_setNxPx {Q : Bool → Keyspace → Prop} {payload : Payload} {ms : Nat} (held : Q false db)
    (taken : ∀ value stop, Q true (db.put key ⟨value, some stop⟩)) :
    wp now (setNxPx key payload ms) Q E db := by
  unfold wp
  rw [exec_setNxPx]
  by_cases zero : ms = 0
  · rw [if_pos zero]
    exact fault
  · rw [if_neg zero]
    cases db.lookup now key with
    | none => exact taken _ _
    | some entry => exact held

theorem wp_setPx {Q : Unit → Keyspace → Prop} {payload px : Payload}
    (next : ∀ value stop, Q () (db.put key ⟨value, some stop⟩)) :
    wp now (setPx key payload px) Q E db := by
  cases px with
  | raw => exact fault
  | int ms =>
    by_cases refused : ms ≤ 0
    · simp only [setPx, refused, if_true]
      exact fault
    · simp only [setPx, refused, if_false]
      exact next _ _

end

/-! Commands that set an expiry or take something away. -/

section
variable {now : Nat} {db : Keyspace} {key : String} {E : Keyspace → Prop}

theorem wp_pexpire {Q : Nat → Keyspace → Prop} {ms : Nat} (missing : db.lookup now key = none → Q 0 db)
    (found : ∀ value, Q 1 (db.refresh now key value ms)) : wp now (pexpire key ms) Q E db := by
  unfold wp
  rw [exec_pexpire]
  cases present : db.lookup now key with
  | none => exact missing present
  | some entry => exact found _

theorem wp_del {Q : Nat → Keyspace → Prop} (missing : db.lookup now key = none → Q 0 db)
    (found : Q 1 (db.erase key)) : wp now (del key) Q E db := by
  unfold wp
  rw [exec_del]
  cases present : db.lookup now key with
  | none => exact missing present
  | some entry => exact found

/-- A list that shows items is there. -/
theorem live_of_list {items : List String} (seen : ((list key).exec now db).1 = .ok items)
    (populated : items ≠ []) : (db.lookup now key).isSome := by
  by_contra missing
  rw [exec_list_missing (by simpa using missing)] at seen
  cases seen
  contradiction

theorem wp_shorten {Q : Unit → Keyspace → Prop} {items : List String}
    (live : (db.lookup now key).isSome) (next : ∀ after, db.Cut now key after → Q () after) :
    wp now (shorten key items) Q E db := by
  unfold shorten
  split
  · exact next _ .gone
  · exact next _ (.left live _)

/-- A key shows a sorted set, or holds something else. -/
theorem zset_view (key : String) (now : Nat) (db : Keyspace) : (∃ members, ZSetAt key now db members) ∨
    (zset key).exec now db = (.error .wrongType, db) := by
  match found : db.lookup now key with
  | none => exact .inl ⟨∅, .inl ⟨found, rfl⟩⟩
  | some ⟨.zset members, stop⟩ => exact .inl ⟨members, .inr ⟨stop, found⟩⟩
  | some ⟨.string _, _⟩ | some ⟨.hash _, _⟩ | some ⟨.list _, _⟩ => exact .inr (by simp [zset, found])

theorem Left.cut {members kept : ZSet} {after : Keyspace} (left : Left key now db members after kept) :
    db.Cut now key after := by
  have shape {next : Keyspace} (others : ∀ other ≠ key, next other = db other) (here : next key = after key) :
      next = after := by
    funext name
    by_cases same : name = key
    · rw [same, here]
    · rw [others name same, left.others name same]
  rcases left.entry with ⟨same, _⟩ | ⟨gone, _⟩ | ⟨stop, found, cut⟩
  · cases shape (fun _ _ => rfl) same.symm
    exact .same
  · cases shape (fun _ => Keyspace.erase_of_ne) (Keyspace.erase_self.trans gone.symm)
    exact .gone
  · have here : db.overwrite now key (.zset kept) key = after key := by simp [Keyspace.overwrite, found, cut]
    cases shape (fun _ => Keyspace.overwrite_of_ne) here
    exact .left (by simp [found]) _

variable (fault : E db)
include fault

theorem wp_hdel {Q : Nat → Keyspace → Prop} {name : String}
    (next : ∀ removed after, db.Cut now key after → Q removed after) :
    wp now (hdel key name) Q E db := by
  refine wp_bind ((reads_hash key).wp fault fun fields seen => ?_)
  by_cases present : (fields.lookup name).isSome = true
  · have live : (db.lookup now key).isSome := by
      by_contra missing
      rw [exec_hash_missing (by simpa using missing)] at seen
      cases seen
      simp at present
    rw [if_pos present]
    split
    · exact next 1 _ .gone
    · exact next 1 _ (.left live _)
  · rw [if_neg present]
    exact next 0 db .same

theorem wp_rpop {Q : Option String → Keyspace → Prop}
    (next : ∀ item after, db.Cut now key after → Q item after) : wp now (rpop key) Q E db := by
  refine wp_bind ((reads_list key).wp fault fun items seen => ?_)
  split
  · exact next none db .same
  · rename_i item last
    have live := live_of_list seen fun empty => by simp [empty] at last
    exact wp_bind (wp_shorten live fun after cut => next _ after cut)

theorem wp_zremrangebyscore {Q : Nat → Keyspace → Prop} {bound : Nat}
    (next : ∀ members removed after, ZSetAt key now db members →
      Left key now db members after (retain members fun _ score => decide (bound < score)) → Q removed after) :
    wp now (zremrangebyscore key bound) Q E db := by
  rcases zset_view key now db with ⟨members, seen⟩ | foreign
  · obtain ⟨removed, after, ran, left⟩ := exec_zremrangebyscore seen bound
    simp only [wp, ran]
    exact next members removed after seen left
  · simp only [wp, zremrangebyscore, exec_bind, foreign]
    exact fault

theorem wp_zrem {Q : Nat → Keyspace → Prop} {member : String}
    (next : ∀ removed after, db.Cut now key after → Q removed after) :
    wp now (zrem key member) Q E db := by
  rcases zset_view key now db with ⟨members, seen⟩ | foreign
  · cases present : members.lookup member with
    | none =>
      simp only [wp, exec_zrem_absent seen present]
      exact next 0 db .same
    | some score =>
      have held : (members.lookup member).isSome := by simp [present]
      obtain ⟨after, ran, left⟩ := exec_zrem_present seen held
      simp only [wp, ran]
      exact next 1 after left.cut
  · simp only [wp, zrem, exec_bind, foreign]
    exact fault

end

end Script
end Redis
