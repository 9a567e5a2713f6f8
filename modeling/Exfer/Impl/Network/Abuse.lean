import Exfer.Lib.Map
import Mathlib.Data.List.MinMax

/-!
# Bans

`record_ip_strike` and `is_ip_banned` of `network/sync.rs`. The readings of the clocks are arguments;
so is the order in which the table of strikes is iterated over. What goes to storage and to
`ban_identity` is returned as a list of `BanEffect`s.
-/

namespace Exfer.Impl

open Lib (Map)

inductive IpAddr where
  | v4 (ip : Vector UInt8 4)
  | v6 (ip : Vector UInt8 16)
  deriving DecidableEq

/-- `Instant`, in nanoseconds. -/
abbrev Instant := Nat

def fromSecs (secs : Nat) : Nat := secs * 1000000000

def banDecaySecs : Nat := 300

def ipBanStrikeThreshold : UInt32 := 10

def ipBanDurationSecs : Nat := 600

def maxIpAbuseEntries : Nat := 4096

structure IpAbuseEntry where
  strikes : UInt32
  bannedUntil : Option Instant
  lastStrike : Instant
  deriving DecidableEq

abbrev IpAbuse := Map IpAddr IpAbuseEntry

/-- What a call does outside the table. -/
inductive BanEffect where
  | putIpBan (ip : IpAddr) (untilUnix : Nat)
  | removeIpBan (ip : IpAddr)
  | banIdentity (pubkey : Vector UInt8 32)

/-- The last strike was long ago. -/
def IpAbuseEntry.decayed (e : IpAbuseEntry) (now : Instant) : Bool :=
  fromSecs banDecaySecs ≤ now - e.lastStrike

/-- The ban has not run out. -/
def IpAbuseEntry.banActive (e : IpAbuseEntry) (now : Instant) : Bool :=
  e.bannedUntil.any (now < ·)

/-- The sweep of decayed entries. -/
def retainFresh (now : Instant) (listing : List IpAddr) (abuse : IpAbuse) : IpAbuse :=
  listing.foldl (fun abuse ip =>
    match abuse.lookup ip with
    | some e => if ! e.decayed now || e.banActive now then abuse else abuse.erase ip
    | none => abuse) abuse

/-- The first of the eligible entries with the oldest strike. -/
def oldestIp (listing : List IpAddr) (abuse : IpAbuse) (eligible : IpAbuseEntry → Bool) :
    Option IpAddr :=
  let candidates := listing.filterMap fun ip =>
    (abuse.lookup ip).bind fun e => if eligible e then some (ip, e.lastStrike) else none
  (candidates.argmin Prod.snd).map Prod.fst

/-- The eviction of entries that are not banned, while the table is full. Each round removes one. -/
def evictUnbanned (now : Instant) (listing : List IpAddr) : Nat → IpAbuse → IpAbuse
  | 0, abuse => abuse
  | fuel + 1, abuse =>
    if maxIpAbuseEntries ≤ abuse.keys.card then
      match oldestIp listing abuse fun e => ! e.banActive now with
      | some ip => evictUnbanned now listing fuel (abuse.erase ip)
      | none => abuse
    else abuse

/-- Room is made for one more entry. -/
def makeRoom (now : Instant) (listing : List IpAddr) (abuse : IpAbuse) (ip : IpAddr) : IpAbuse :=
  let abuse :=
    if maxIpAbuseEntries ≤ abuse.keys.card then
      evictUnbanned now listing abuse.keys.card (retainFresh now listing abuse)
    else abuse
  if maxIpAbuseEntries ≤ abuse.keys.card ∧ ip ∉ abuse then
    match oldestIp listing abuse fun _ => true with
    | some evictIp => abuse.erase evictIp
    | none => abuse
  else abuse

/-- The entry after one more strike. -/
def IpAbuseEntry.strike (e : IpAbuseEntry) (now : Instant) : IpAbuseEntry :=
  let e := if e.decayed now then { e with strikes := 0, bannedUntil := none } else e
  { e with strikes := e.strikes + 1, lastStrike := now }

def recordIpStrike (now : Instant) (nowUnix : Option Nat) (listing : List IpAddr) (abuse : IpAbuse)
    (ip : IpAddr) (identity : Option (Vector UInt8 32)) : IpAbuse × Bool × List BanEffect :=
  let abuse := makeRoom now listing abuse ip
  let entry := ((abuse.lookup ip).getD ⟨0, none, now⟩).strike now
  if ipBanStrikeThreshold ≤ entry.strikes then
    let banned := { entry with bannedUntil := some (now + fromSecs ipBanDurationSecs) }
    let banEndUnix := (nowUnix.map (· + ipBanDurationSecs)).getD 0
    (abuse.insert ip banned, true, .putIpBan ip banEndUnix :: (identity.map .banIdentity).toList)
  else (abuse.insert ip entry, false, [])

def isIpBanned (now : Instant) (abuse : IpAbuse) (ip : IpAddr) : IpAbuse × Bool × List BanEffect :=
  match abuse.lookup ip with
  | none => (abuse, false, [])
  | some entry =>
    match entry.bannedUntil with
    | some until_ =>
      if until_ ≤ now then (abuse.erase ip, false, [.removeIpBan ip]) else (abuse, true, [])
    | none => if entry.decayed now then (abuse.erase ip, false, []) else (abuse, false, [])

end Exfer.Impl
