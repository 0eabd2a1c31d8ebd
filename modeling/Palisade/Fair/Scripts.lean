import Palisade.Redis.Hoare
import Palisade.Core
import Palisade.Single.Scripts

/-! The fair mutex scripts. Waiters queue in a list, newest first, and keep a
heartbeat key each; the lock key holds the token of the holder. The loops over the
queue are bounded by its length. Script arguments that a caller may leave out are
optional; reading one that is not there is a script error. The grant script is
also passed a retention for the fence counter, which it does not use. -/
namespace Palisade.Fair
open Redis Single

def queueKeyFor (key : String) : String := "\x7b" ++ key ++ "\x7d:q"

def hbPrefixFor (key : String) : String := "\x7b" ++ key ++ "\x7d:hb:"

def hbKeyFor (key token : String) : String := hbPrefixFor key ++ token

/-- Whether the heartbeat of a queued token is there. -/
def beats (hbPrefix : Option String) (token : String) : Script Bool := do
  Script.existsKey ((← Script.required hbPrefix .nilConcat) ++ token)

theorem reads_beats (hbPrefix : Option String) (token : String) : (beats hbPrefix token).Reads :=
  Script.reads_bind (Script.reads_required _ _) fun _ => Script.reads_existsKey _

/-- The loop of `fair_acquire.lua` that discards dead entries from the oldest side. -/
def discardDead (queueKey : String) (hbPrefix : Option String) : Nat → Script Unit
  | 0 => return ()
  | more + 1 => do
    if (← Script.llen queueKey) = 0 then
      return ()
    if let some token ← Script.lrangeLast queueKey then
      if ← beats hbPrefix token then
        return ()
    let _ ← Script.rpop queueKey
    discardDead queueKey hbPrefix more

/-- The end of `fair_acquire.lua`: the caller takes or keeps its place and beats. -/
def enqueue (queueKey hbKey token : String) (ttl hbTtl : Nat) : Script (Int × Int) := do
  if (← Script.lpos queueKey token) = none then
    Script.lpush queueKey token
  Script.setPx hbKey (.int 1) (.int hbTtl)
  let _ ← Script.pexpire queueKey (ttl * 10)
  return (0, 0)

/-- `fair_acquire.lua` -/
def acquire (key queueKey fenceKey hbKey token : String) (ttl hbTtl : Nat)
    (hbPrefix : Option String) : Script (Int × Int) := do
  if (← Script.get key) = some (.raw token) then
    let _ ← Script.pexpire key ttl
    return (2, ← Script.incr fenceKey)
  if (← Script.existsKey key) = false then
    discardDead queueKey hbPrefix (← Script.llen queueKey)
    let oldest ← Script.lrangeLast queueKey
    if oldest = none ∨ oldest = some token then
      if oldest ≠ none then
        let _ ← Script.lrem queueKey token
      Script.setPx key (.raw token) (.int ttl)
      return (1, ← Script.incr fenceKey)
  enqueue queueKey hbKey token ttl hbTtl

/-- The loop of `fair_release.lua` that hands the lock to the oldest live waiter. -/
def handOff (key queueKey : String) (ttl : Payload) (hbPrefix : Option String) : Nat → Script Unit
  | 0 => return ()
  | more + 1 => do
    match ← Script.rpop queueKey with
    | none => handOff key queueKey ttl hbPrefix more
    | some token =>
      if ← beats hbPrefix token then
        Script.setPx key (.raw token) ttl
      else
        handOff key queueKey ttl hbPrefix more

/-- `fair_release.lua` -/
def release (key : String) (queueKey : Option String) (token : String) (ttl : Payload)
    (hbPrefix : Option String) : Script Int := do
  if (← Script.get key) ≠ some (.raw token) then
    return -1
  let _ ← Script.del key
  let queueKey ← Script.required queueKey .nilArgument
  handOff key queueKey ttl hbPrefix (← Script.llen queueKey)
  return 1

/-- `extend.lua` as the fair handle invokes it, with the lock key alone. -/
def extend (key token : String) (ttl : Nat) : Script Nat := do
  if (← Script.get key) = some (.raw token) then
    let _ ← Script.pexpire key ttl
    Script.fail .nilArgument
  return 0

/-! The keys of a lock are distinct. -/

section
variable (key token other : String)

theorem queueKeyFor_ne : queueKeyFor key ≠ key := by
  intro same
  have lengths := congrArg String.length same
  have opening : "\x7b".length = 1 := by decide
  simp only [queueKeyFor, String.length_append, opening] at lengths
  omega

theorem hbKeyFor_ne : hbKeyFor key token ≠ key := by
  intro same
  have lengths := congrArg String.length same
  have opening : "\x7b".length = 1 := by decide
  simp only [hbKeyFor, hbPrefixFor, String.length_append, opening] at lengths
  omega

theorem hbKeyFor_ne_queueKeyFor : hbKeyFor key token ≠ queueKeyFor key := by
  intro same
  have letters := congrArg String.toList same
  simp [hbKeyFor, hbPrefixFor, queueKeyFor] at letters

theorem fenceKeyFor_ne_queueKeyFor : fenceKeyFor key ≠ queueKeyFor key := by
  intro same
  have letters := congrArg String.toList same
  simp [fenceKeyFor, queueKeyFor] at letters

theorem hbKeyFor_ne_fenceKeyFor : hbKeyFor key token ≠ fenceKeyFor key := by
  intro same
  have letters := congrArg String.toList same
  simp [hbKeyFor, hbPrefixFor, fenceKeyFor] at letters

variable {key token other}

theorem hbKeyFor_injective (same : hbKeyFor key token = hbKeyFor key other) : token = other := by
  simpa [hbKeyFor] using same

end

/-! What the loops do to a queue of which it is known who is dead. -/

section
variable {key token : String} {now : Nat} {db : Keyspace} {items : List String} {stop : Option Nat}
  {dead : String → Bool}

def Dead (key : String) (now : Nat) (db : Keyspace) (dead : String → Bool) : Prop :=
  ∀ token, (db.lookup now (hbKeyFor key token)).isSome = !dead token

theorem Dead.trim (known : Dead key now db dead) :
    Dead key now (db.trim (queueKeyFor key) items stop) dead := by
  intro token
  rw [Keyspace.lookup_congr (Keyspace.trim_of_ne (hbKeyFor_ne_queueKeyFor key token))]
  exact known token

theorem exec_beats (known : Dead key now db dead) (token : String) :
    (beats (some (hbPrefixFor key)) token).exec now db = (.ok (!dead token), db) := by
  simp only [beats, Script.required, Script.exec_bind, Script.exec_pure, Script.exec_existsKey]
  rw [← hbKeyFor, known token]

theorem exec_discardDead (known : Dead key now db dead)
    (found : db.lookup now (queueKeyFor key) = some ⟨.list items, stop⟩) (populated : items ≠ []) :
    (discardDead (queueKeyFor key) (some (hbPrefixFor key)) items.length).exec now db =
      (.ok (), db.trim (queueKeyFor key) (items.rdropWhile dead) stop) := by
  induction items using List.reverseRecOn generalizing db with
  | nil => contradiction
  | append_singleton init token ih =>
    have last : (init ++ [token]).getLast? = some token := by simp
    have entered (more : Nat) : (discardDead (queueKeyFor key) (some (hbPrefixFor key)) (more + 1)).exec
        now db = if dead token then
          (discardDead (queueKeyFor key) (some (hbPrefixFor key)) more).exec now
            (db.trim (queueKeyFor key) init stop)
        else (.ok (), db) := by
      cases dying : dead token <;>
        simp [discardDead, Script.llen, Script.lrangeLast, Script.exec_list found, exec_beats known,
          Script.exec_rpop found last, dying]
    rw [List.length_append, List.length_singleton, entered]
    cases dying : dead token with
    | false =>
      have alive : ¬ dead token = true := by simp [dying]
      rw [List.rdropWhile_concat_neg _ _ _ alive, Keyspace.trim_self found populated]
      simp
    | true =>
      rw [List.rdropWhile_concat_pos _ _ _ dying, if_pos rfl]
      by_cases rest : init = []
      · subst rest
        simp [discardDead, Keyspace.trim]
      · have left := Keyspace.lookup_trim found init
        rw [if_neg rest] at left
        rw [ih known.trim left rest, Keyspace.trim_trim]

/-- The store after the lock went to the oldest of the waiters that are left, if any. -/
def handed (key : String) (now ttl : Nat) (db : Keyspace) (stop : Option Nat)
    (left : List String) : Keyspace :=
  match left.getLast? with
  | none => db.trim (queueKeyFor key) [] stop
  | some token =>
    (db.trim (queueKeyFor key) left.dropLast stop).put key ⟨.string (.raw token), some (now + ttl)⟩

theorem exec_handOff (known : Dead key now db dead)
    (found : db.lookup now (queueKeyFor key) = some ⟨.list items, stop⟩) (populated : items ≠ [])
    {ttl : Nat} (positive : 0 < ttl) :
    (handOff key (queueKeyFor key) (.int ttl) (some (hbPrefixFor key)) items.length).exec now db =
      (.ok (), handed key now ttl db stop (items.rdropWhile dead)) := by
  induction items using List.reverseRecOn generalizing db with
  | nil => contradiction
  | append_singleton init token ih =>
    have last : (init ++ [token]).getLast? = some token := by simp
    have entered (more : Nat) :
        (handOff key (queueKeyFor key) (.int ttl) (some (hbPrefixFor key)) (more + 1)).exec now db =
          if dead token then
            (handOff key (queueKeyFor key) (.int ttl) (some (hbPrefixFor key)) more).exec now
              (db.trim (queueKeyFor key) init stop)
          else (.ok (), (db.trim (queueKeyFor key) init stop).put key
            ⟨.string (.raw token), some (now + ttl)⟩) := by
      cases dying : dead token <;>
        simp [handOff, Script.exec_rpop found last, exec_beats known.trim, dying,
          Script.exec_setPx _ positive]
    rw [List.length_append, List.length_singleton, entered]
    cases dying : dead token with
    | false =>
      have alive : ¬ dead token = true := by simp [dying]
      rw [List.rdropWhile_concat_neg _ _ _ alive]
      simp [handed]
    | true =>
      rw [List.rdropWhile_concat_pos _ _ _ dying, if_pos rfl]
      by_cases rest : init = []
      · subst rest
        simp [handOff, handed]
      · have left := Keyspace.lookup_trim found init
        rw [if_neg rest] at left
        rw [ih known.trim left rest]
        simp only [handed, Keyspace.trim_trim]

end

end Palisade.Fair
