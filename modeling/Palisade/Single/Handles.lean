import Palisade.Single.Scripts

/-! The handle of a single-instance mutex and the token-level calls servers make for
remote holders: the scripts they run and what they make of the replies. -/
namespace Palisade.Single
open Redis

/-- How much renewal trouble a holder tolerates. -/
inductive SafetyPolicy where
  | cowardly
  | balanced
  | aggressive
  deriving DecidableEq

/-- Consecutive transient renewal failures tolerated, a `u32`. -/
def SafetyPolicy.maxTransientFailures : SafetyPolicy → Nat
  | .cowardly => 0
  | .balanced => 2
  | .aggressive => 2 ^ 32 - 1

/-- State shared by the clones of a handle. `poisoned` is what `is_lost` reads and
`lost` what `until_lost` waits for. -/
structure HandleShared where
  key : String
  token : String
  fence : FencingToken
  ttl : Duration
  policy : SafetyPolicy
  released : Bool
  poisoned : Bool
  lost : Bool
  deriving DecidableEq

/-- What `try_lock_with` makes of the reply to its script. -/
def acquireReply (key token : String) (ttl : Duration) (policy : SafetyPolicy) :
    Except Fault (Nat × Int) → Except Error HandleShared
  | .error fault => .error (.backend s!"acquire script failed: {fault.text}")
  | .ok (status, fence) =>
    if status = 1 ∨ status = 2 then .ok ⟨key, token, ⟨fence.toNat⟩, ttl, policy, false, false, false⟩
    else .error (.held key)

namespace HandleShared

def markLost (h : HandleShared) : HandleShared := { h with poisoned := true, lost := true }

/-- The error of a handle whose lease is gone. -/
def lostError (h : HandleShared) : Error := .lost h.key h.fence.value

/-- The script of `fire_extend`. -/
def extendScript (h : HandleShared) (ttl : Duration) : Script Nat :=
  Single.extend h.key (fenceKeyFor h.key) h.token ttl.asMillisU64 (fenceTtlMs ttl.asMillisU64)

/-- `Ok(false)` is the definitive answer that the token owns the lock no more. -/
def extendReply : Except Fault Nat → Except Error Bool
  | .error fault => .error (.backend s!"extend script failed: {fault.text}")
  | .ok status => .ok (decide (status = 1))

def releaseScript (h : HandleShared) : Script Nat := Single.release h.key h.token

def releaseReply (h : HandleShared) : Except Fault Nat → Except Error Unit
  | .error fault => .error (.backend s!"release script failed: {fault.text}")
  | .ok status => if status = 1 then .ok () else .error h.lostError

end HandleShared

/-- `unlock_with_token`, on the reply to its `release.lua`. -/
def unlockReply : Except Fault Nat → Except Error Bool
  | .error fault => .error (.backend s!"unlock failed: {fault.text}")
  | .ok status => .ok (decide (status = 1))

end Palisade.Single
