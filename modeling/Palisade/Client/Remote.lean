import Palisade.Server.Wire

/-! The handle of the gRPC client. A status the transport returns is rendered by the
gRPC library. -/
namespace Palisade.Client
open Server

/-- State shared by the clones of a remote handle. -/
structure RemoteShared where
  key : String
  token : String
  fence : FencingToken
  ttl : Duration
  released : Bool
  lost : Bool
  deriving DecidableEq

def statusToError (display : Status → String) (status : Status) : Error :=
  .backend s!"rpc failed: {display status}"

/-- What `run_unlock` makes of the response. -/
def RemoteShared.unlockReply (h : RemoteShared) (display : Status → String) :
    Except Status UnlockResult → Except Error Unit
  | .error status => .error (statusToError display status)
  | .ok .released => .ok ()
  | .ok (.lost _) => .error (.lost h.key h.fence.value)

end Palisade.Client
