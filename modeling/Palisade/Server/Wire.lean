import Palisade.Core

/-! What the lock service answers over the wire. -/
namespace Palisade

/-- The `Display` text of an error. -/
def Error.text : Error → String
  | .timeout key => s!"timed out acquiring lock `{key}`"
  | .held key => s!"lock `{key}` is already held"
  | .lost key fence =>
    s!"lock `{key}` was lost while held: the lease expired or was revoked; writes after this point must be rejected via fencing token {fence}"
  | .invalidConfig message => s!"invalid configuration: {message}"
  | .backend message => s!"backend error: {message}"

namespace Server

inductive Code where
  | invalidArgument
  | notFound
  | permissionDenied
  | resourceExhausted
  | unauthenticated
  | unavailable
  | internal
  deriving DecidableEq

structure Status where
  code : Code
  message : String
  deriving DecidableEq

inductive UnlockResult where
  | released
  | lost (fencingToken : Nat)
  deriving DecidableEq

/-- The answer of `unlock`, once the caller is authorized, to what `unlock_with_token`
returned. -/
def unlockResponse : Except Error Bool → Except Status UnlockResult
  | .error error => .error ⟨.internal, error.text⟩
  | .ok true => .ok .released
  | .ok false => .ok (.lost 0)

end Server

end Palisade
