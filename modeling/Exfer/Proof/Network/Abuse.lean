import Exfer.Spec.Abuse

/-!
# How long a ban lasts

`ban_lasts_iff`: a ban lasts for `IP_BAN_DURATION_SECS` exactly where no strike against the address
comes `BAN_DECAY_SECS` or more after the one before. A strike that comes later starts from an empty
entry, and so lifts the ban.
-/

namespace Exfer.Proof

open Lib Impl Spec

variable {abuse : IpAbuse} {ip : IpAddr} {time now : Instant} {e : IpAbuseEntry}

/-! ## One call -/

/-- The address is banned at least until the given time. -/
def BannedUntil (abuse : IpAbuse) (ip : IpAddr) (time : Instant) : Prop :=
  ∃ e until_, abuse.lookup ip = some e ∧ e.bannedUntil = some until_ ∧ time ≤ until_

/-- What a call leaves as it is. -/
theorem BannedUntil.congr (h : BannedUntil abuse ip time)
    (hlookup : abuse'.lookup ip = abuse.lookup ip) : BannedUntil abuse' ip time := by
  obtain ⟨e, until_, he, hban⟩ := h
  exact ⟨e, until_, hlookup.trans he, hban⟩

theorem BannedUntil.answers (h : BannedUntil abuse ip time) (hnow : now < time) :
    isIpBanned now abuse ip = (abuse, true, []) := by
  obtain ⟨e, until_, he, hban, htime⟩ := h
  simp only [isIpBanned, he, hban]
  exact if_neg (Nat.not_le.mpr (Nat.lt_of_lt_of_le hnow htime))

theorem makeRoom_eq (hcap : BelowCap abuse) (now : Instant) (listing : List IpAddr) (ip : IpAddr) :
    makeRoom now listing abuse ip = abuse := by
  have hroom : ¬ maxIpAbuseEntries ≤ abuse.keys.card := Nat.not_le.mpr hcap
  simp only [makeRoom, if_neg hroom]
  exact if_neg fun h => hroom h.1

/-- A strike is about its address only. -/
theorem recordIpStrike_other (hcap : BelowCap abuse) (hne : ip' ≠ ip) (now : Instant)
    (nowUnix : Option Nat) (listing : List IpAddr) (identity : Option (Vector UInt8 32)) :
    (recordIpStrike now nowUnix listing abuse ip' identity).1.lookup ip = abuse.lookup ip := by
  simp only [recordIpStrike, makeRoom_eq hcap]
  split <;> exact Finmap.lookup_insert_of_ne _ hne.symm

/-- And so is a query. -/
theorem isIpBanned_other (abuse : IpAbuse) (hne : ip' ≠ ip) (now : Instant) :
    (isIpBanned now abuse ip').1.lookup ip = abuse.lookup ip := by
  unfold isIpBanned
  split
  · rfl
  · split <;> split <;> first | rfl | exact Finmap.lookup_erase_ne hne.symm

theorem bannedUntil_of_strike (h : (recordIpStrike now nowUnix listing abuse ip identity).2.1 = true) :
    BannedUntil (recordIpStrike now nowUnix listing abuse ip identity).1 ip
      (now + fromSecs ipBanDurationSecs) := by
  unfold recordIpStrike at h ⊢
  dsimp only at h ⊢
  split at h
  · rename_i hstrikes
    rw [if_pos hstrikes]
    exact ⟨_, _, Finmap.lookup_insert _, rfl, Nat.le_refl _⟩
  · exact absurd h Bool.false_ne_true

/-- A strike that comes soon after the last one keeps the ban, or renews it. -/
theorem BannedUntil.strike (h : BannedUntil abuse ip time) (hcap : BelowCap abuse)
    (hsoon : ∀ e, abuse.lookup ip = some e → now - e.lastStrike < fromSecs banDecaySecs)
    (htime : time ≤ now + fromSecs ipBanDurationSecs) (nowUnix : Option Nat)
    (listing : List IpAddr) (identity : Option (Vector UInt8 32)) :
    BannedUntil (recordIpStrike now nowUnix listing abuse ip identity).1 ip time := by
  obtain ⟨e, until_, he, hban, huntil⟩ := h
  have hfresh : e.decayed now = false := decide_eq_false (Nat.not_le.mpr (hsoon e he))
  simp only [recordIpStrike, makeRoom_eq hcap, he, Option.getD_some]
  split
  · exact ⟨_, _, Finmap.lookup_insert _, rfl, htime⟩
  · refine ⟨_, until_, Finmap.lookup_insert _, ?_, huntil⟩
    simp only [IpAbuseEntry.strike, hfresh]
    exact hban

/-- A strike that comes later starts the entry anew. -/
theorem lookup_late_strike (hcap : BelowCap abuse) (he : abuse.lookup ip = some e)
    (hlate : fromSecs banDecaySecs ≤ now - e.lastStrike) (nowUnix : Option Nat)
    (listing : List IpAddr) (identity : Option (Vector UInt8 32)) :
    (recordIpStrike now nowUnix listing abuse ip identity).1.lookup ip = some ⟨1, none, now⟩ := by
  have hdecayed : e.decayed now = true := decide_eq_true hlate
  have hstrike : e.strike now = ⟨1, none, now⟩ := by
    simp only [IpAbuseEntry.strike, hdecayed]
    rfl
  simp only [recordIpStrike, makeRoom_eq hcap, he, Option.getD_some, hstrike]
  exact Finmap.lookup_insert _

theorem isIpBanned_of_unbanned (he : abuse.lookup ip = some e) (hban : e.bannedUntil = none)
    (now : Instant) : (isIpBanned now abuse ip).2.1 = false := by
  simp only [isIpBanned, he, hban]
  split <;> rfl

/-- A call keeps a ban that has not run out, unless it is a late strike. -/
theorem BannedUntil.run (h : BannedUntil abuse ip time) (hcap : BelowCap abuse) (hnow : now < time)
    (htime : time ≤ now + fromSecs ipBanDurationSecs) (hsoon : SoonAfter ip abuse now call) :
    BannedUntil (call.run now abuse) ip time := by
  cases call with
  | strike ip' identity nowUnix listing =>
    by_cases hip : ip' = ip
    · subst hip
      exact h.strike hcap (hsoon rfl) htime nowUnix listing identity
    · exact h.congr (recordIpStrike_other hcap hip now nowUnix listing identity)
  | query ip' =>
    by_cases hip : ip' = ip
    · subst hip
      show BannedUntil (isIpBanned now abuse ip').1 ip' time
      rw [h.answers hnow]
      exact h
    · exact h.congr (isIpBanned_other abuse hip now)

/-! ## All calls -/

theorem afterCalls_append (abuse : IpAbuse) (front back : List (Instant × AbuseCall)) :
    afterCalls abuse (front ++ back) = afterCalls (afterCalls abuse front) back :=
  List.foldl_append

/-- Where no strike is late, the ban is there after all calls in its time. -/
theorem BannedUntil.afterCalls (hban : BannedUntil abuse ip time) {calls : List (Instant × AbuseCall)}
    (hcap : ∀ front, front <+: calls → BelowCap (afterCalls abuse front))
    (htime : ∀ call ∈ calls, call.1 < time ∧ time ≤ call.1 + fromSecs ipBanDurationSecs)
    (hsoon : ∀ front now call, front ++ [(now, call)] <+: calls → SoonAfter ip (Spec.afterCalls
      abuse front) now call) : BannedUntil (Spec.afterCalls abuse calls) ip time := by
  -- from the last call backwards
  induction calls using List.reverseRecOn with
  | nil => exact hban
  | append_singleton front call ih =>
    have hfront : front <+: front ++ [call] := List.prefix_append _ _
    have hbefore := ih (fun f hf => hcap f (hf.trans hfront))
      (fun c hc => htime c (List.mem_append_left _ hc))
      (fun f now c hf => hsoon f now c (hf.trans hfront))
    obtain ⟨hnow, hrenew⟩ := htime call (List.mem_append_right _ (List.mem_singleton_self _))
    rw [afterCalls_append]
    exact hbefore.run (hcap front hfront) hnow hrenew (hsoon front call.1 call.2 (List.prefix_refl _))

/-- An address. -/
def sampleIp : IpAddr := .v4 #v[192, 0, 2, 1]

/-- A strike against it at the given second. -/
def strikeAt (secs : Nat) : Instant × AbuseCall := (fromSecs secs, .strike sampleIp none none [])

/-- The table after nine strikes against it at the start of the clock. -/
def nineStrikes : IpAbuse := afterCalls ∅ (List.replicate 9 (strikeAt 0))

/-- A ban lasts its full duration, whatever is called in the meantime, if and only if every strike
against the address in that time comes less than `BAN_DECAY_SECS` after the one before. -/
theorem ban_lasts_iff {abuse : IpAbuse} {t : Instant} {nowUnix : Option Nat} {listing : List IpAddr}
    {ip : IpAddr} {identity : Option (Vector UInt8 32)}
    (hban : (recordIpStrike t nowUnix listing abuse ip identity).2.1 = true)
    {calls : List (Instant × AbuseCall)} (hclock : (t :: calls.map Prod.fst).Pairwise (· ≤ ·))
    (hcap : ∀ front, front <+: calls →
      BelowCap (afterCalls (recordIpStrike t nowUnix listing abuse ip identity).1 front)) :
    (∀ front, front <+: calls → ∀ now, (∀ call ∈ front, call.1 ≤ now) →
      now < t + fromSecs ipBanDurationSecs →
      (isIpBanned now
        (afterCalls (recordIpStrike t nowUnix listing abuse ip identity).1 front) ip).2.1 = true) ↔
    ∀ front now call, front ++ [(now, call)] <+: calls → now < t + fromSecs ipBanDurationSecs →
      SoonAfter ip (afterCalls (recordIpStrike t nowUnix listing abuse ip identity).1 front) now call := by
  obtain ⟨hstart, hsorted⟩ := List.pairwise_cons.mp hclock
  constructor
  · intro hanswers front now call hbegin hnow
    cases call with
    | query ip' => exact trivial
    | strike ip' identity' nowUnix' listing' =>
      intro hip e he
      subst hip
      refine Nat.not_le.mp fun hlate => ?_
      -- after a late strike the answer at that very time is no
      have hfront : front <+: calls := (List.prefix_append _ _).trans hbegin
      have hnext := lookup_late_strike (hcap front hfront) he hlate nowUnix' listing' identity'
      have htimes : ∀ c ∈ front ++ [(now, AbuseCall.strike ip' identity' nowUnix' listing')],
          c.1 ≤ now := by
        intro c hc
        rcases List.mem_append.mp hc with hc | hc
        · have hpairs := (hsorted.sublist (hbegin.sublist.map Prod.fst))
          rw [List.map_append, List.pairwise_append] at hpairs
          exact hpairs.2.2 _ (List.mem_map_of_mem hc) _ (List.mem_singleton_self _)
        · rw [List.mem_singleton.mp hc]
      have hyes := hanswers _ hbegin now htimes hnow
      rw [afterCalls_append] at hyes
      exact Bool.false_ne_true ((isIpBanned_of_unbanned hnext rfl now).symm.trans hyes)
  · intro hsoon front hbegin now htimes hnow
    have hlasts : BannedUntil
        (afterCalls (recordIpStrike t nowUnix listing abuse ip identity).1 front) ip
        (t + fromSecs ipBanDurationSecs) := by
      refine (bannedUntil_of_strike hban).afterCalls (fun f hf => hcap f (hf.trans hbegin))
        (fun c hc => ?_) fun f u c hf => ?_
      · have hafter := hstart _ (List.mem_map_of_mem (hbegin.subset hc))
        exact ⟨Nat.lt_of_le_of_lt (htimes c hc) hnow, Nat.add_le_add_right hafter _⟩
      · refine hsoon f u c (hf.trans hbegin) (Nat.lt_of_le_of_lt (htimes (u, c) ?_) hnow)
        exact hf.subset (List.mem_append_right _ (List.mem_singleton_self _))
    rw [hlasts.answers hnow]

/-- The tenth strike bans the address, and one that follows in time leaves the ban as it is. -/
theorem ban_lasts_iff_soon :
    (isIpBanned (fromSecs 598) (afterCalls (recordIpStrike 0 none [] nineStrikes sampleIp none).1
      [strikeAt 299]) sampleIp).2.1 = true := by
  have hban : (recordIpStrike 0 none [] nineStrikes sampleIp none).2.1 = true := by decide +kernel
  have hclock : ((0 : Instant) :: [strikeAt 299].map Prod.fst).Pairwise (· ≤ ·) :=
    List.pairwise_pair.mpr (Nat.zero_le _)
  have hcaps : BelowCap (recordIpStrike 0 none [] nineStrikes sampleIp none).1 ∧
      BelowCap (afterCalls (recordIpStrike 0 none [] nineStrikes sampleIp none).1
        [strikeAt 299]) := by
    unfold BelowCap
    decide +kernel
  have hcap : ∀ front, front <+: [strikeAt 299] →
      BelowCap (afterCalls (recordIpStrike 0 none [] nineStrikes sampleIp none).1 front) := by
    intro front hfront
    rcases List.prefix_cons_iff.mp hfront with h | ⟨rest, h, hrest⟩
    · rw [h]
      exact hcaps.1
    · rw [h, List.prefix_nil.mp hrest]
      exact hcaps.2
  refine (ban_lasts_iff hban hclock hcap).mpr ?_ _ (List.prefix_refl _) (fromSecs 598) ?_ (by decide)
  · intro front now call hfront _
    obtain ⟨rfl, hcall⟩ : front = [] ∧ [(now, call)] = [strikeAt 299] :=
      List.append_inj' (hfront.eq_of_length_le (by simp)) rfl
    obtain ⟨rfl, rfl⟩ := Prod.mk.inj (List.singleton_inj.mp hcall)
    exact fun _ e _ => Nat.lt_of_le_of_lt (Nat.sub_le _ _) (by decide)
  · intro call hcall
    rw [List.mem_singleton.mp hcall]
    decide

/-- A strike after five minutes lifts the ban. -/
theorem ban_lasts_iff_counterexample : let banned := (recordIpStrike 0 none [] nineStrikes sampleIp none).1
    let late := afterCalls banned [strikeAt 300]
    (recordIpStrike 0 none [] nineStrikes sampleIp none).2.1 = true ∧
    BelowCap nineStrikes ∧ BelowCap banned ∧ BelowCap late ∧
    fromSecs 300 < 0 + fromSecs ipBanDurationSecs ∧
    (isIpBanned (fromSecs 300) late sampleIp).2.1 = false := by
  unfold BelowCap
  decide +kernel

end Exfer.Proof
