import Exfer.Impl.Network.Abuse

/-!
# Bans over time

Calls of `record_ip_strike` and `is_ip_banned` one after another, at readings of a clock that does not
run back.
-/

namespace Exfer.Spec

open Lib Impl

/-- A call on the table of strikes. -/
inductive AbuseCall where
  | strike (ip : IpAddr) (identity : Option (Vector UInt8 32)) (nowUnix : Option Nat)
    (listing : List IpAddr)
  | query (ip : IpAddr)

/-- The table after a call. -/
def AbuseCall.run (now : Instant) (abuse : IpAbuse) : AbuseCall → IpAbuse
  | .strike ip identity nowUnix listing => (recordIpStrike now nowUnix listing abuse ip identity).1
  | .query ip => (isIpBanned now abuse ip).1

/-- The table after calls at the given times. -/
def afterCalls (abuse : IpAbuse) (calls : List (Instant × AbuseCall)) : IpAbuse :=
  calls.foldl (fun abuse call => call.2.run call.1 abuse) abuse

/-- The table has room for one more entry. -/
def BelowCap (abuse : IpAbuse) : Prop :=
  abuse.keys.card < maxIpAbuseEntries

/-- If the call is a strike against the address, then it comes less than `BAN_DECAY_SECS` after the
last one. -/
def SoonAfter (ip : IpAddr) (abuse : IpAbuse) (now : Instant) : AbuseCall → Prop
  | .strike ip' _ _ _ => ip' = ip → ∀ e, abuse.lookup ip = some e →
      now - e.lastStrike < fromSecs banDecaySecs
  | .query _ => True

end Exfer.Spec
