import Exfer.Proof.Block.NextBlock
import Exfer.Proof.Open.Walk

/-!
# The walk marker

`WALK_VERIFIED_TIP` lets `open_chain` skip the structural walk up to the block it names. The result
is that of a full walk just if the marker names the canonical block at its height and that block's
row of `WORK_TABLE` is right (`MarkerAgrees`, `walk_marker_saves_work`). `open_chain` checks neither:
with a marker that names a stored block off the canonical chain it fails on a database that a full
walk accepts (`walk_marker_saves_work_counterexample`).
-/

namespace Exfer.Proof

open Lib Impl

variable [Crypto] [Network]

/-- A marker that the walk would start from names the canonical block at its height, and its stored
work with that of the blocks above it is the work of the canonical blocks. -/
def MarkerAgrees (s : Storage) (tipHeight : UInt64) : Prop :=
  ∀ marker header work, s.walkVerifiedTip = some marker → s.headers.lookup marker = some header →
    s.work.lookup marker = some work → header.height ≤ tipHeight →
      s.heightIndex.lookup header.height = some marker ∧
        workOver s (heightsFrom (header.height.toNat + 1) tipHeight) work =
          workOver s (heightsFrom 0 tipHeight) noWork

/-- The condition on a database: where the snapshot is used, the marker agrees with the chain. -/
def MarkerSound (s : Storage) : Prop :=
  ∀ tipId tipHeader, s.tip = some tipId → s.heightIndex.lookup 0 ≠ none →
    s.getUtxoSnapshotTip = some tipId → s.headers.lookup tipId = some tipHeader →
      MarkerAgrees s tipHeader.height

section

variable {s : Storage} {expectedGenesisId tipId : Hash256} {tipHeader : BlockHeader}

/-- The walk from the marker gives what the full walk gives just if the marker agrees. -/
theorem walkChain_marker (hheader : s.headers.lookup tipId = some tipHeader)
    (h : walkChain s expectedGenesisId proven .full tipId tipHeader.height = .ok work) :
    walkChain s expectedGenesisId proven (walkStart s s.walkVerifiedTip tipId tipHeader.height)
      tipId tipHeader.height = .ok work ↔ MarkerAgrees s tipHeader.height := by
  obtain ⟨hlinked, hwork⟩ := walkChain_eq_ok.mp h
  cases hmarker : s.walkVerifiedTip with
  | none =>
    refine ⟨fun _ marker header work' hm => ?_, fun _ => h⟩
    rw [hmarker] at hm
    cases hm
  | some marker =>
    -- a usable marker, whether it is the tip or not
    have hafter : ∀ {header : BlockHeader} {stored : Work},
        s.headers.lookup marker = some header → s.work.lookup marker = some stored →
        header.height ≤ tipHeader.height →
        (walkChain s expectedGenesisId proven ⟨header.height.toNat + 1, marker, stored⟩ tipId
          tipHeader.height = .ok work ↔ MarkerAgrees s tipHeader.height) := by
      intro header stored hh hw hle
      rw [walkChain_eq_ok, hlinked.after hle]
      constructor
      · rintro ⟨hindex, heq⟩ marker' header' work' hm hh' hw' -
        rw [hmarker] at hm
        cases hm
        rw [hh] at hh'
        cases hh'
        rw [hw] at hw'
        cases hw'
        exact ⟨hindex, heq.symm.trans hwork⟩
      · intro hagrees
        obtain ⟨hindex, heq⟩ := hagrees marker header stored hmarker hh hw hle
        exact ⟨hindex, hwork.trans heq.symm⟩
    -- an unusable one
    have hfull : (∀ header stored, s.headers.lookup marker = some header →
        s.work.lookup marker = some stored → ¬ header.height ≤ tipHeader.height) →
        (walkChain s expectedGenesisId proven .full tipId tipHeader.height = .ok work ↔
          MarkerAgrees s tipHeader.height) := by
      intro hunusable
      refine ⟨fun _ marker' header stored hm hh hw hle => ?_, fun _ => h⟩
      rw [hmarker] at hm
      cases hm
      exact absurd hle (hunusable header stored hh hw)
    unfold walkStart
    dsimp only
    split
    · rename_i heq
      subst heq
      cases hw : s.work.lookup marker with
      | none => exact hfull fun _ _ _ hw' => by rw [hw] at hw'; cases hw'
      | some stored => exact hafter hheader hw (UInt64.le_refl _)
    · cases hh : s.headers.lookup marker with
      | none => exact hfull fun _ _ hh' => by rw [hh] at hh'; cases hh'
      | some header =>
        cases hw : s.work.lookup marker with
        | none => exact hfull fun _ _ _ hw' => by rw [hw] at hw'; cases hw'
        | some stored =>
          dsimp only
          split
          · exact hafter hh hw ‹_›
          · refine hfull fun header' stored' hh' _ hle => ?_
            rw [hh] at hh'
            cases hh'
            contradiction

theorem openSnapshot_eq_ok : openSnapshot s u expectedGenesisId assumeValid trustWalkMarker tipId = .ok opened ↔
      ∃ tipHeader work u', s.headers.lookup tipId = some tipHeader ∧
        let start := walkStart s (if trustWalkMarker then s.walkVerifiedTip else none) tipId
          tipHeader.height
        walkChain s expectedGenesisId (assumeValidProven s assumeValid tipHeader.height) start tipId
          tipHeader.height = .ok work ∧
        loadSnapshot s u tipHeader = .ok u' ∧
        opened = {
          storage := if start.height ≤ tipHeader.height.toNat then s.setWalkVerifiedTip tipId else s
          utxoSet := u'
          tip := { blockId := tipId, height := tipHeader.height, cumulativeWork := work } } := by
  constructor
  · intro h
    obtain ⟨tipHeader, hheader, h⟩ := bind_eq_ok.mp h
    obtain ⟨work, hwork, h⟩ := bind_eq_ok.mp h
    obtain ⟨u', hu, h⟩ := bind_eq_ok.mp h
    exact ⟨tipHeader, work, u', orMessage_eq_ok.mp hheader, hwork, hu, (Except.ok.inj h).symm⟩
  · rintro ⟨tipHeader, work, u', hheader, hwork, hu, rfl⟩
    refine bind_eq_ok.mpr ⟨tipHeader, orMessage_eq_ok.mpr hheader, ?_⟩
    exact bind_eq_ok.mpr ⟨work, hwork, bind_eq_ok.mpr ⟨u', hu, rfl⟩⟩

theorem openSnapshot_marker (hheader : s.headers.lookup tipId = some tipHeader)
    (hopen : openSnapshot s u expectedGenesisId assumeValid false tipId = .ok opened) :
    (∃ opened', openSnapshot s u expectedGenesisId assumeValid true tipId = .ok opened' ∧
      opened'.tip = opened.tip ∧ opened'.utxoSet = opened.utxoSet) ↔
        MarkerAgrees s tipHeader.height := by
  obtain ⟨tipHeader', work, u', hheader', hwalk, hload, rfl⟩ := openSnapshot_eq_ok.mp hopen
  rw [hheader] at hheader'
  cases hheader'
  rw [← walkChain_marker hheader hwalk]
  constructor
  · rintro ⟨opened', hopen', htip, -⟩
    obtain ⟨tipHeader', work', u'', hheader', hwalk', -, rfl⟩ := openSnapshot_eq_ok.mp hopen'
    rw [hheader] at hheader'
    cases hheader'
    obtain rfl : work' = work := congrArg ChainTip.cumulativeWork htip
    exact hwalk'
  · intro hwalk'
    exact ⟨_, openSnapshot_eq_ok.mpr ⟨tipHeader, work, u', hheader, hwalk', hload, rfl⟩, rfl, rfl⟩

end

/-- On a database that `open_chain` accepts without trusting the marker, it accepts the marker with
the same tip, work and UTXO set just if the marker is sound. -/
theorem walk_marker_saves_work (s : Storage) (u : UtxoSet) (expectedGenesisId : Hash256)
    (assumeValid autoMigrate : Bool) (opened : Opened)
    (hopen : openChain s u expectedGenesisId assumeValid autoMigrate false = .ok opened) :
    (∃ opened', openChain s u expectedGenesisId assumeValid autoMigrate true = .ok opened' ∧
      opened'.tip = opened.tip ∧ opened'.utxoSet = opened.utxoSet) ↔ MarkerSound s := by
  unfold openChain at hopen ⊢
  cases htip : s.tip with
  | none =>
    rw [htip] at hopen
    refine ⟨fun _ tipId tipHeader h => ?_, fun _ => ⟨opened, hopen, rfl, rfl⟩⟩
    rw [htip] at h
    cases h
  | some tipId =>
    rw [htip] at hopen
    cases hgenesis : s.heightIndex.lookup 0 with
    | none =>
      rw [hgenesis] at hopen
      exact ⟨fun _ tipId tipHeader _ h => absurd hgenesis h, fun _ => ⟨opened, hopen, rfl, rfl⟩⟩
    | some stored =>
      rw [hgenesis] at hopen
      dsimp only at hopen ⊢
      split at hopen
      · cases hopen
      rename_i hstored
      rw [if_neg hstored]
      split at hopen
      · rename_i hsnapshot
        rw [if_pos hsnapshot]
        obtain ⟨tipHeader, -, -, hheader, -⟩ := openSnapshot_eq_ok.mp hopen
        rw [openSnapshot_marker hheader hopen]
        constructor
        · intro hagrees tipId' tipHeader' htip' _ _ hheader'
          rw [htip] at htip'
          cases htip'
          rw [hheader] at hheader'
          cases hheader'
          exact hagrees
        · intro hsound
          exact hsound tipId tipHeader htip (by simp [hgenesis]) hsnapshot hheader
      · rename_i hsnapshot
        rw [if_neg hsnapshot]
        refine ⟨fun _ tipId' tipHeader htip' _ hs => ?_, fun _ => ⟨opened, hopen, rfl, rfl⟩⟩
        rw [htip] at htip'
        cases htip'
        contradiction

/-! ## A marker off the chain -/

omit [Network]

/-- A hash for concrete databases: of a header it gives the nonce. -/
def nonceHash (bs : List UInt8) : Hash256 :=
  hashOfBytes (bs.drop 84)

/-- A first block that creates no output. -/
def soloBlock (nonce : UInt64) : Block where
  header :=
    { version := version, height := 0, prevBlockId := Hash256.zero, timestamp := 0
      difficultyTarget := Hash256.zero, nonce, txRoot := Hash256.zero
      stateRoot := UtxoSet.new.stateRoot }
  transactions := []

/-- Its id. -/
def soloId (nonce : UInt64) : Hash256 :=
  (soloBlock nonce).header.blockId

/-- A database with two first blocks of which the one with nonce 0 is canonical, and a marker. -/
def soloStorage (marker : Hash256) : Storage :=
  { Storage.empty with
    blocks := ((∅ : Map Hash256 Block).insert (soloId 1) (soloBlock 1)).insert (soloId 0) (soloBlock 0)
    headers := ((∅ : Map Hash256 BlockHeader).insert (soloId 1) (soloBlock 1).header).insert
      (soloId 0) (soloBlock 0).header
    work := ((∅ : Map Hash256 Work).insert (soloId 1) maxWork).insert (soloId 0) maxWork
    heightIndex := (∅ : Map UInt64 Hash256).insert 0 (soloId 0)
    tip := some (soloId 0)
    snapshotComplete := true
    snapshotTip := some (soloId 0)
    walkVerifiedTip := some marker }

theorem soloId_inj (hhash : (Crypto.sha256 : List UInt8 → Hash256) = nonceHash)
    (h : soloId m = soloId n) : m = n := by
  have hid : ∀ nonce : UInt64, soloId nonce = hashOfBytes (leBytes 8 nonce.toNat ++
      (Hash256.zero.toList ++ (UtxoSet.new.stateRoot).toList)) := by
    intro nonce
    have hfront : (leBytes 4 version.toNat ++ leBytes 8 (0 : UInt64).toNat ++ Hash256.zero.toList ++
        leBytes 8 (0 : UInt64).toNat ++ Hash256.zero.toList).length = 84 := by
      simp
    simp only [soloId, BlockHeader.blockId, hhash, nonceHash, BlockHeader.serialize, soloBlock]
    rw [List.append_assoc, List.append_assoc, List.drop_left' hfront]
  rw [hid m, hid n] at h
  exact UInt64.toNat_inj.mp
    (hashOfBytes_leBytes_inj m.toNat_lt n.toNat_lt (by simp) (by simp) h)

variable [Network]

theorem soloStorage_walk (marker : Hash256) (proven : Bool) :
    walkChain (soloStorage marker) (soloId 0) proven .full (soloId 0) 0 =
      .ok (addWork noWork (canonicalWork (soloStorage marker) 0)) := by
  have hcanonical : CanonicalAt (soloStorage marker) (soloId 0) 0 (soloId 0) (soloBlock 0) :=
    ⟨Finmap.lookup_insert _, fun _ => rfl, Finmap.lookup_insert _, rfl⟩
  exact walkChain_eq_ok.mpr ⟨⟨soloId 0, soloBlock 0, hcanonical, rfl, rfl, rfl⟩, rfl⟩

omit [Network] in
theorem soloStorage_load (marker : Hash256) :
    loadSnapshot (soloStorage marker) UtxoSet.new (soloBlock 0).header = .ok UtxoSet.new := by
  have hrows : (soloStorage marker).iterUtxos = .ok [] := by
    simp [Storage.iterUtxos, sortedRows, soloStorage, Storage.empty, pure, Except.pure]
  refine bind_eq_ok.mpr ⟨[], orStorageError_eq_ok.mpr hrows, bind_eq_ok.mpr ⟨UtxoSet.new, rfl, ?_⟩⟩
  exact failIf_then (not_not.mpr rfl) rfl

theorem soloStorage_openChain (marker : Hash256) (trustWalkMarker : Bool) :
    openChain (soloStorage marker) UtxoSet.new (soloId 0) false false trustWalkMarker =
      openSnapshot (soloStorage marker) UtxoSet.new (soloId 0) false trustWalkMarker (soloId 0) := by
  have hgenesis : (soloStorage marker).heightIndex.lookup 0 = some (soloId 0) :=
    Finmap.lookup_insert _
  have hsnapshot : (soloStorage marker).getUtxoSnapshotTip = some (soloId 0) := rfl
  unfold openChain
  rw [hgenesis, hsnapshot]
  simp [soloStorage]

theorem soloStorage_full (marker : Hash256) : ∃ opened,
    openChain (soloStorage marker) UtxoSet.new (soloId 0) false false false = .ok opened := by
  rw [soloStorage_openChain]
  exact ⟨_, openSnapshot_eq_ok.mpr ⟨(soloBlock 0).header, _, UtxoSet.new, Finmap.lookup_insert _,
    soloStorage_walk marker _, soloStorage_load marker, rfl⟩⟩

/-- A walk from the other block does not end at the tip. -/
theorem soloStorage_stray (hne : soloId 1 ≠ soloId 0) (opened : Opened) :
    openChain (soloStorage (soloId 1)) UtxoSet.new (soloId 0) false false true ≠ .ok opened := by
  intro hopen
  rw [soloStorage_openChain] at hopen
  obtain ⟨tipHeader, work, u', hheader, hwalk, -⟩ := openSnapshot_eq_ok.mp hopen
  have hheader0 : (soloStorage (soloId 1)).headers.lookup (soloId 0) = some (soloBlock 0).header :=
    Finmap.lookup_insert _
  have hheader1 : (soloStorage (soloId 1)).headers.lookup (soloId 1) = some (soloBlock 1).header :=
    (Finmap.lookup_insert_of_ne _ hne).trans (Finmap.lookup_insert _)
  have hwork1 : (soloStorage (soloId 1)).work.lookup (soloId 1) = some maxWork :=
    (Finmap.lookup_insert_of_ne _ hne).trans (Finmap.lookup_insert _)
  have hstart : walkStart (soloStorage (soloId 1)) (some (soloId 1)) (soloId 0) 0 =
      ⟨(0 : UInt64).toNat + 1, soloId 1, maxWork⟩ := by
    simp only [walkStart, if_neg hne, hheader1, hwork1, soloBlock]
    rfl
  rw [hheader0] at hheader
  cases hheader
  have hwalk : walkChain (soloStorage (soloId 1)) (soloId 0)
      (assumeValidProven (soloStorage (soloId 1)) false 0)
      (walkStart (soloStorage (soloId 1)) (some (soloId 1)) (soloId 0) 0) (soloId 0) 0 =
        .ok work := hwalk
  rw [hstart, walkChain_eq_ok] at hwalk
  have hlinked := (walkChain_eq_ok.mp (soloStorage_walk (soloId 1)
    (assumeValidProven (soloStorage (soloId 1)) false 0))).1
  have hindex := (hlinked.after (UInt64.le_refl 0)).mp hwalk.1
  exact hne (Option.some.inj (hindex.symm.trans (Finmap.lookup_insert _)))

omit [Network] in
theorem soloStorage_sound : MarkerSound (soloStorage (soloId 0)) := by
  intro tipId tipHeader htip _ _ hheader marker header work hmarker hheader' hwork _
  obtain rfl : soloId 0 = tipId := Option.some.inj htip
  obtain rfl : soloId 0 = marker := Option.some.inj hmarker
  have hheader0 : (soloStorage (soloId 0)).headers.lookup (soloId 0) = some (soloBlock 0).header :=
    Finmap.lookup_insert _
  have hwork0 : (soloStorage (soloId 0)).work.lookup (soloId 0) = some maxWork :=
    Finmap.lookup_insert _
  have hindex : (soloStorage (soloId 0)).heightIndex.lookup 0 = some (soloId 0) :=
    Finmap.lookup_insert _
  have hbody : (soloStorage (soloId 0)).blocks.lookup (soloId 0) = some (soloBlock 0) :=
    Finmap.lookup_insert _
  rw [hheader0] at hheader hheader'
  cases hheader
  cases hheader'
  rw [hwork0] at hwork
  cases hwork
  refine ⟨hindex, ?_⟩
  have hcanonical : canonicalWork (soloStorage (soloId 0)) 0 = maxWork := by
    rw [canonicalWork, hindex, Option.bind_some, hbody]
    rfl
  have htotal : addWork noWork maxWork = maxWork := by decide
  calc maxWork = addWork noWork (canonicalWork (soloStorage (soloId 0)) 0) := by
        rw [hcanonical, htotal]
    _ = workOver (soloStorage (soloId 0)) (heightsFrom 0 0) noWork := rfl

omit [Crypto] [Network] in
/-- A full walk accepts the database, but with the marker on the other block `open_chain` fails. -/
theorem walk_marker_saves_work_counterexample : let _ := Crypto.ofHash nonceHash
    let _ := sampleNetwork
    let s := soloStorage (soloId 1)
    (∃ opened, openChain s UtxoSet.new (soloId 0) false false false = .ok opened) ∧
      ∀ opened, openChain s UtxoSet.new (soloId 0) false false true ≠ .ok opened := by
  intro _ _
  have hhash : (Crypto.sha256 : List UInt8 → Hash256) = nonceHash := rfl
  have hne : soloId 1 ≠ soloId 0 := fun h => absurd (soloId_inj hhash h) (by decide)
  exact ⟨soloStorage_full _, soloStorage_stray hne⟩

omit [Crypto] [Network] in
/-- With the marker on the tip, the theorem gives the result of the full walk. -/
theorem walk_marker_saves_work_tip : let _ := Crypto.ofHash nonceHash
    let _ := sampleNetwork
    let s := soloStorage (soloId 0)
    ∃ opened opened', openChain s UtxoSet.new (soloId 0) false false false = .ok opened ∧
      openChain s UtxoSet.new (soloId 0) false false true = .ok opened' ∧
      opened'.tip = opened.tip ∧ opened'.utxoSet = opened.utxoSet := by
  intro _ _ s
  obtain ⟨opened, hopen⟩ := soloStorage_full (soloId 0)
  obtain ⟨opened', hopen', htip, hset⟩ :=
    (walk_marker_saves_work s UtxoSet.new (soloId 0) false false opened hopen).mpr soloStorage_sound
  exact ⟨opened, opened', hopen, hopen', htip, hset⟩

end Exfer.Proof
