import Mathlib.Data.List.DropRight
import Palisade.Redis.Collections

/-! List commands. The head of a list is its left end. As for the other
collections, a write keeps the expiry of the key, and a list that becomes empty
is removed. -/
namespace Redis

namespace Keyspace
variable {db : Keyspace} {now : Nat} {key other : String} {items left : List String}
  {stop : Option Nat}

/-- The store after a list was cut down to some of its items. -/
def trim (db : Keyspace) (key : String) (items : List String) (stop : Option Nat) : Keyspace :=
  if items = [] then db.erase key else db.put key ⟨.list items, stop⟩

theorem trim_of_ne (distinct : other ≠ key) : db.trim key items stop other = db other := by
  unfold trim
  split
  · exact erase_of_ne distinct
  · exact put_of_ne distinct

theorem trim_trim : (db.trim key items stop).trim key left stop = db.trim key left stop := by
  unfold trim
  split <;> split <;> simp [put, erase]

theorem trim_self (found : db.lookup now key = some ⟨.list items, stop⟩) (populated : items ≠ []) :
    db.trim key items stop = db := by
  rw [trim, if_neg populated, put, ← (lookup_eq_some.mp found).1, Function.update_eq_self]

theorem lookup_trim (found : db.lookup now key = some ⟨.list items, stop⟩) (left : List String) :
    (db.trim key left stop).lookup now key =
      if left = [] then none else some ⟨.list left, stop⟩ := by
  have live : Entry.expired ⟨.list left, stop⟩ now = false := (lookup_eq_some.mp found).2
  unfold trim
  split
  · exact lookup_erase_self
  · rw [lookup_put_self, live]
    rfl

end Keyspace

namespace Script
variable {now : Nat} {db : Keyspace} {key : String}

def list (key : String) : Script (List String) := do
  match ← read key with
  | none => return []
  | some ⟨.list items, _⟩ => return items
  | some _ => fail .wrongType

/-- Stores what is left of a list. -/
def shorten (key : String) (items : List String) : Script Unit := do
  if items.isEmpty then
    remove key
  else
    store key (.list items)

def llen (key : String) : Script Nat := do
  return (← list key).length

/-- `LRANGE key -1 -1`, first item. -/
def lrangeLast (key : String) : Script (Option String) := do
  return (← list key).getLast?

def rpop (key : String) : Script (Option String) := do
  let items ← list key
  match items.getLast? with
  | none => return none
  | some item =>
    shorten key items.dropLast
    return some item

/-- `LREM key 1 item`: the number of items removed. -/
def lrem (key item : String) : Script Nat := do
  let items ← list key
  if item ∈ items then
    shorten key (items.erase item)
    return 1
  else
    return 0

/-- `LPOS key item`. -/
def lpos (key item : String) : Script (Option Nat) := do
  return (← list key).findIdx? (· == item)

def lpush (key item : String) : Script Unit := do
  let items ← list key
  store key (.list (item :: items))

section
variable {items : List String} {stop : Option Nat} {item : String}

theorem exec_list_missing (missing : db.lookup now key = none) :
    (list key).exec now db = (.ok [], db) := by
  simp [list, missing]

variable (found : db.lookup now key = some ⟨.list items, stop⟩)
include found

theorem exec_list : (list key).exec now db = (.ok items, db) := by
  simp [list, found]

theorem exec_shorten (left : List String) :
    (shorten key left).exec now db = (.ok (), db.trim key left stop) := by
  by_cases empty : left = []
  · simp [shorten, Keyspace.trim, empty]
  · simp [shorten, Keyspace.trim, empty, exec_store _ found]

theorem exec_rpop (last : items.getLast? = some item) :
    (rpop key).exec now db = (.ok (some item), db.trim key items.dropLast stop) := by
  simp [rpop, exec_list found, last, exec_shorten found]

theorem exec_lrem (member : item ∈ items) :
    (lrem key item).exec now db = (.ok 1, db.trim key (items.erase item) stop) := by
  simp [lrem, exec_list found, member, exec_shorten found]

end
end Script
end Redis
