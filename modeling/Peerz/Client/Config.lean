/-! The configuration of a client, as far as its sessions and its retries need it. -/
namespace Peerz.Client

structure ClientConfig where
  useServerToServer : Bool := true
  /-- without a limit a request is retried forever -/
  maxRetries : Option Nat

end Peerz.Client
