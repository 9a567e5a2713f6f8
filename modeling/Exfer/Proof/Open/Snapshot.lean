import Exfer.Proof.Open.Marker
import Exfer.Proof.Open.Replay
import Exfer.Proof.State.Binding

/-!
# The fast boot path

Where both `open_chain` and `replay_chain` accept a database whose canonical tables describe a chain,
they give the same tip, work and UTXO set, whatever the rows of the snapshot and the markers are
(`open_matches_replay`): both sets have the state root of the tip, which determines them.
-/

namespace Exfer.Proof

open Lib Impl Spec UtxoSet

variable [Crypto] [Network]

section Tables

variable {s : Storage} {chain : List Block} {block : Block}

section

omit [Network]

theorem canonicalWork_of_mem (h : CanonicalTables s chain) (hblock : block ∈ chain) :
    canonicalWork s block.header.height = workFromTarget block.header.difficultyTarget := by
  have hindex := (h.index block.header.height block.header.blockId).mpr ⟨block, hblock, rfl, rfl⟩
  rw [canonicalWork, hindex, Option.bind_some, h.body block hblock]

theorem workOver_concat (h : CanonicalTables s chain) (hblock : block ∈ chain) :
    workOver s (heightsFrom 0 block.header.height) noWork =
      addWork (workOver s ((List.range' 0 block.header.height.toNat).map UInt64.ofNat) noWork)
        (workFromTarget block.header.difficultyTarget) := by
  rw [heightsFrom_concat, workOver, List.foldl_append, List.foldl_cons, List.foldl_nil,
    canonicalWork_of_mem h hblock, workOver]

/-- The work of the blocks up to a height is the cumulative work of the chain up to there. -/
theorem workOver_canonical (h : CanonicalTables s chain) (hsuffix : block :: below <:+ chain) :
    workOver s (heightsFrom 0 block.header.height) noWork = chainWork (block :: below) := by
  rw [workOver_concat h (hsuffix.subset List.mem_cons_self), chainWork]
  induction below generalizing block with
  | nil =>
    cases chained_of_suffix h.chained hsuffix with
    | cons _ hheight _ =>
      rw [hheight]
      rfl
  | cons block' below ih =>
    have hsuffix' : block' :: below <:+ chain := (List.suffix_cons _ _).trans hsuffix
    cases chained_of_suffix h.chained hsuffix with
    | cons hbelow hheight _ =>
      cases hbelow with
      | cons _ hheight' _ =>
        have hheights : (List.range' 0 block.header.height.toNat).map UInt64.ofNat =
            heightsFrom 0 block'.header.height := by
          rw [hheight, heightsFrom, hheight', List.length_cons, Nat.sub_zero]
        rw [hheights, workOver_concat h (hsuffix'.subset List.mem_cons_self), ih hsuffix', chainWork]

end

end Tables

/-! ## The two paths -/

section Paths

variable {s : Storage} {u : UtxoSet} {expectedGenesisId tipId : Hash256} {tipHeader : BlockHeader}
  {assumeValid : Bool} {replayed : Opened}

omit [Crypto] [Network] in
/-- A shortened walk starts after a block with a header and a work row. -/
theorem walkStart_cases (hheader : s.headers.lookup tipId = some tipHeader) (marker : Option Hash256) :
    walkStart s marker tipId tipHeader.height = .full ∨
      ∃ id header work, s.headers.lookup id = some header ∧ s.work.lookup id = some work ∧
        header.height ≤ tipHeader.height ∧
        walkStart s marker tipId tipHeader.height = ⟨header.height.toNat + 1, id, work⟩ := by
  cases marker with
  | none => exact .inl rfl
  | some id =>
    unfold walkStart
    dsimp only
    split
    · cases hwork : s.work.lookup tipId with
      | none => exact .inl rfl
      | some work => exact .inr ⟨tipId, tipHeader, work, hheader, hwork, UInt64.le_refl _, rfl⟩
    · split
      · rename_i header work hheader' hwork
        split
        · exact .inr ⟨id, header, work, hheader', hwork, ‹_›, rfl⟩
        · exact .inl rfl
      · exact .inl rfl

/-- Where the canonical tables describe a chain, a walk gives its work from wherever it starts. -/
theorem walkChain_work (htables : CanonicalTables s chain) (hheader : s.headers.lookup tipId = some tipHeader)
    (hlinked : Linked s expectedGenesisId (fun _ _ => True) (heightsFrom 0 tipHeader.height) firstId
      tipId) (hwalk : walkChain s expectedGenesisId proven (walkStart s marker tipId tipHeader.height) tipId
      tipHeader.height = .ok work) : work = workOver s (heightsFrom 0 tipHeader.height) noWork := by
  obtain ⟨hwalked, hwork⟩ := walkChain_eq_ok.mp hwalk
  rcases walkStart_cases hheader marker with hstart | ⟨id, header, stored, -, hstored, hle, hstart⟩
  · rw [hwork, hstart]
    rfl
  · rw [hstart] at hwalked hwork
    -- the marker is a canonical block, so that its row has the work up to it
    have hindex := (hlinked.after hle).mp (hwalked.mono fun _ _ _ => trivial)
    obtain ⟨block, hblock, hheight, rfl⟩ := (htables.index _ _).mp hindex
    obtain ⟨above, below, rfl⟩ := List.append_of_mem hblock
    have hsuffix : block :: below <:+ above ++ block :: below := List.suffix_append _ _
    have hrow := htables.work block below hsuffix
    rw [hstored, Option.some.injEq] at hrow
    rw [hwork, hrow, ← workOver_canonical htables hsuffix, hheight, heightsFrom_split hle, workOver,
      workOver, workOver, List.foldl_append]

theorem replayChain_spec (htip : s.tip = some tipId)
    (h : replayChain s u expectedGenesisId assumeValid = .ok replayed) :
    ∃ tipHeader block, s.headers.lookup tipId = some tipHeader ∧
      Linked s expectedGenesisId (fun _ _ => True) (heightsFrom 0 tipHeader.height) Hash256.zero
        tipId ∧
      replayed.tip = { blockId := tipId, height := tipHeader.height,
                       cumulativeWork := workOver s (heightsFrom 0 tipHeader.height) noWork } ∧
      Steps (canonicalOutputs s) u replayed.utxoSet ∧ s.blocks.lookup tipId = some block ∧
      replayed.utxoSet.stateRoot = block.header.stateRoot := by
  unfold replayChain at h
  rw [htip] at h
  obtain ⟨tipHeader, hheader, h⟩ := bind_eq_ok.mp h
  obtain ⟨⟨u', lastId, work⟩, hloop, h⟩ := bind_eq_ok.mp h
  obtain ⟨⟨⟩, hlast, h⟩ := bind_eq_ok.mp h
  cases h
  obtain rfl : lastId = tipId := not_not.mp (failIf_eq_ok.mp hlast)
  obtain ⟨hlinked, hsteps, rfl, hroot⟩ := replay_spec hloop
  have hheights : heightsFrom 0 tipHeader.height ≠ [] := by simp [heightsFrom]
  obtain ⟨block, hblock, hroot⟩ := hroot hheights
  exact ⟨tipHeader, block, orMessage_eq_ok.mp hheader, hlinked, rfl, hsteps, hblock, hroot⟩

theorem runReplayAndMaybeMigrate_ok
    (h : runReplayAndMaybeMigrate s u expectedGenesisId assumeValid autoMigrate = .ok opened)
    (hreplay : replayChain s u expectedGenesisId assumeValid = .ok replayed) :
    opened.tip = replayed.tip ∧ opened.utxoSet = replayed.utxoSet := by
  obtain ⟨replayed', hreplay', h⟩ := bind_eq_ok.mp h
  rw [hreplay] at hreplay'
  cases hreplay'
  split at h
  · split at h <;> cases h
    exact ⟨rfl, rfl⟩
  · cases h
    exact ⟨rfl, rfl⟩

/-- Opening a chain is replaying it, but for what is stored, or loading the snapshot. -/
theorem openChain_cases
    (hopen : openChain s u expectedGenesisId assumeValid autoMigrate trustWalkMarker = .ok opened)
    (hreplay : replayChain s u expectedGenesisId assumeValid = .ok replayed) :
    (opened.tip = replayed.tip ∧ opened.utxoSet = replayed.utxoSet) ∨
      ∃ tipId, s.tip = some tipId ∧
        openSnapshot s u expectedGenesisId assumeValid trustWalkMarker tipId = .ok opened := by
  unfold openChain at hopen
  split at hopen
  · rw [hreplay] at hopen
    cases hopen
    exact .inl ⟨rfl, rfl⟩
  · rename_i tipId htip
    split at hopen
    · exact .inl (runReplayAndMaybeMigrate_ok hopen hreplay)
    · split at hopen
      · cases hopen
      split at hopen
      · exact .inr ⟨tipId, htip, hopen⟩
      · exact .inl (runReplayAndMaybeMigrate_ok hopen hreplay)

end Paths

/-- Where the canonical tables describe a chain and both `open_chain` and `replay_chain` accept the
database, they give the same tip and UTXO set, provided SHA-256 has no collision among what is
hashed for the two sets and no leaf has the digest of an empty one. The rows of the snapshot and the
markers are arbitrary. -/
theorem open_matches_replay (s : Storage) (chain : List Block) (expectedGenesisId : Hash256)
    (assumeValid autoMigrate trustWalkMarker : Bool) (opened replayed : Opened) (htables : CanonicalTables s chain)
    (hopen : openChain s UtxoSet.new expectedGenesisId assumeValid autoMigrate trustWalkMarker =
      .ok opened) (hreplay : replayChain s UtxoSet.new expectedGenesisId assumeValid = .ok replayed)
    (hinj : Set.InjOn Crypto.sha256 { x | Hashed (canonicalOutputs s) replayed.utxoSet x ∨
      Hashed (snapshotOutpoints s) opened.utxoSet x })
    (hne : NonzeroValues replayed.utxoSet) (hne' : NonzeroValues opened.utxoSet) :
    opened.tip = replayed.tip ∧ opened.utxoSet.utxos = replayed.utxoSet.utxos ∧
      opened.utxoSet.byScript = replayed.utxoSet.byScript ∧
      opened.utxoSet.stateRoot = replayed.utxoSet.stateRoot := by
  rcases openChain_cases hopen hreplay with ⟨htip, hset⟩ | ⟨tipId, htip, hopen⟩
  · exact ⟨htip, by rw [hset], by rw [hset], by rw [hset]⟩
  obtain ⟨tipHeader, block, hheader, hlinked, htip', hsteps, hblock, hroot⟩ :=
    replayChain_spec htip hreplay
  obtain ⟨tipHeader', work, u', hheader', hwalk, hload, rfl⟩ := openSnapshot_eq_ok.mp hopen
  obtain rfl : tipHeader = tipHeader' := Option.some.inj (hheader.symm.trans hheader')
  obtain ⟨hsteps', hroot'⟩ := loadSnapshot_spec hload
  have hwork := walkChain_work htables hheader hlinked hwalk
  -- the tip's body and header rows agree, and with them the two roots
  have hroots : u'.stateRoot = replayed.utxoSet.stateRoot := by
    obtain ⟨first, hfirst, rfl⟩ := Option.map_eq_some_iff.mp (htables.tip.symm.trans htip)
    have hmem : first ∈ chain := List.mem_of_mem_head? hfirst
    rw [htables.header first hmem] at hheader
    rw [htables.body first hmem] at hblock
    cases hheader
    cases hblock
    rw [hroot', hroot]
  have hinv := hsteps.inv (injOn_leafKey hinj fun op hop => .inl (.key hop)) (inv_new _)
  have hinv' := hsteps'.inv (injOn_leafKey hinj fun op hop => .inr (.key hop)) (inv_new _)
  have hutxos : u'.utxos = replayed.utxoSet.utxos :=
    hinv'.utxos_eq hinv hinj (fun _ => .inr) (fun _ => .inl) hne' hne hroots
  exact ⟨by rw [htip', hwork], hutxos, hinv'.byScript_eq hinv hutxos, hroots⟩

/-! ## A chain of one block -/

/-- The output of the first coinbase. -/
def firstEntry : UtxoEntry :=
  ⟨⟨UInt64.ofNat (blockReward 0), List.replicate 32 0, none, none⟩, 0, true⟩

/-- A first block that pays the reward. -/
def firstBlock (stateRoot : Hash256) : Block where
  header :=
    { version := version, height := 0, prevBlockId := Hash256.zero, timestamp := 0
      difficultyTarget := Hash256.zero, nonce := 0, txRoot := Hash256.zero, stateRoot }
  transactions := [rewardCoinbase 0]

/-- The database of that block, with one row in the snapshot and both markers on the block. -/
def firstStorage (block : Block) (key row : List UInt8) : Storage :=
  { Storage.empty with
    blocks := (∅ : Map Hash256 Block).insert block.header.blockId block
    headers := (∅ : Map Hash256 BlockHeader).insert block.header.blockId block.header
    work := (∅ : Map Hash256 Work).insert block.header.blockId (chainWork [block])
    heightIndex := (∅ : Map UInt64 Hash256).insert 0 block.header.blockId
    tip := some block.header.blockId
    utxos := (∅ : Map (List UInt8) (List UInt8)).insert key row
    snapshotComplete := true
    snapshotTip := some block.header.blockId
    walkVerifiedTip := some block.header.blockId }

section First

variable {block : Block} {key row : List UInt8} {txId : Hash256} {u : UtxoSet} {op : OutPoint}

omit [Network] in
theorem firstStorage_tables (key row : List UInt8) (hheight : block.header.height = 0)
    (hprev : block.header.prevBlockId = Hash256.zero) : CanonicalTables (firstStorage block key row) [block] where
  chained := .cons .nil (by rw [hheight]; rfl) hprev
  tip := rfl
  index := by
    intro height id
    simp only [firstStorage, Map.lookup_insert_eq, Finmap.lookup_empty, List.mem_singleton, exists_eq_left, hheight]
    split <;> simp_all [eq_comm]
  body := by
    intro block' h
    obtain rfl := List.mem_singleton.mp h
    exact Finmap.lookup_insert _
  header := by
    intro block' h
    obtain rfl := List.mem_singleton.mp h
    exact Finmap.lookup_insert _
  work := by
    intro block' below h
    rcases List.suffix_cons_iff.mp h with h | h
    · cases h
      exact Finmap.lookup_insert _
    · cases List.suffix_nil.mp h

/-- The block applies to the empty set, with the same result for every state root. -/
theorem firstBlock_applied : ∃ txId u, (rewardCoinbase 0).txId = .ok txId ∧
    u.utxos = (∅ : Map OutPoint UtxoEntry).insert ⟨txId, 0⟩ firstEntry ∧
    ∀ root, ∃ r, validateAndApplyBlockTransactionsAtomic (firstBlock root) UtxoSet.new =
      some (u, .ok r) := by
  obtain ⟨_, hser, -⟩ := rewardCoinbase_serialize 0
  obtain ⟨txId, hid⟩ := txId_of_serialize hser
  have hreward : validateCoinbase (rewardCoinbase 0) 0 (blockReward 0) = .ok () :=
    rewardCoinbase_valid (by decide)
  have hblock : ∀ root, ∃ u r, applyBlock (firstBlock root).header (rewardCoinbase 0) [] UtxoSet.new =
      (u, .ok r) := by
    intro root
    obtain ⟨u, mutations, h⟩ : ∃ u mutations, applyBlock (firstBlock root).header (rewardCoinbase 0) []
        UtxoSet.new = (u, .ok (0, mutations)) :=
      coinbaseBlock_accepted hid (fun _ _ => rfl) hreward
    exact ⟨u, _, h⟩
  obtain ⟨u, r, happly⟩ := hblock Hash256.zero
  obtain ⟨u₁, mutations, log, hcoinbase, hrest, -⟩ := applyBlock_ok happly
  cases hrest
  obtain ⟨txId', removed, hid', hkeys, -, hutxos, -⟩ := applyTransaction_ok hcoinbase
  obtain rfl : txId = txId' := Except.ok.inj (hid.symm.trans hid')
  obtain rfl : removed = [] := List.map_eq_nil_iff.mp hkeys
  refine ⟨txId, u, hid, hutxos, fun root => ?_⟩
  obtain ⟨u', r', happly'⟩ := hblock root
  obtain ⟨u₂, mutations', log', hcoinbase', hrest', -⟩ := applyBlock_ok happly'
  cases hrest'
  obtain rfl : u' = u := congrArg Prod.fst (hcoinbase'.symm.trans hcoinbase)
  exact ⟨r', congrArg some happly'⟩

theorem firstStorage_replay (key row : List UInt8)
    (happly : ∃ r, validateAndApplyBlockTransactionsAtomic (firstBlock u.stateRoot) UtxoSet.new =
      some (u, .ok r)) : ∃ tip, replayChain (firstStorage (firstBlock u.stateRoot) key row) UtxoSet.new
      (firstBlock u.stateRoot).header.blockId false =
        .ok ⟨firstStorage (firstBlock u.stateRoot) key row, u, tip⟩ := by
  obtain ⟨r, happly⟩ := happly
  generalize hs : firstStorage (firstBlock u.stateRoot) key row = s
  have htip : s.tip = some (firstBlock u.stateRoot).header.blockId := by rw [← hs]; rfl
  have hheader : s.headers.lookup (firstBlock u.stateRoot).header.blockId =
      some (firstBlock u.stateRoot).header := by rw [← hs]; exact Finmap.lookup_insert _
  have hcanonical : CanonicalAt s (firstBlock u.stateRoot).header.blockId 0
      (firstBlock u.stateRoot).header.blockId (firstBlock u.stateRoot) := by
    rw [← hs]
    exact ⟨Finmap.lookup_insert _, fun _ => rfl, Finmap.lookup_insert _, rfl⟩
  have hstored : applyStored false UtxoSet.new (firstBlock u.stateRoot) = .ok u := by
    simp only [applyStored, Bool.false_eq_true, if_false, happly]
  have hround : replayBlock s (firstBlock u.stateRoot).header.blockId false
      (UtxoSet.new, Hash256.zero, noWork) 0 = .ok (u, (firstBlock u.stateRoot).header.blockId,
        addWork noWork (workFromTarget (firstBlock u.stateRoot).header.difficultyTarget)) := by
    refine bind_eq_ok.mpr ⟨_, readCanonical_eq_ok.mpr ⟨hcanonical, rfl⟩, ?_⟩
    refine bind_eq_ok.mpr ⟨(), rfl, bind_eq_ok.mpr ⟨u, hstored, ?_⟩⟩
    exact failIf_then (not_not.mpr rfl) rfl
  have hproven : assumeValidProven s false 0 = false := by simp [assumeValidProven]
  unfold replayChain
  rw [htip]
  refine ⟨⟨(firstBlock u.stateRoot).header.blockId, 0,
    addWork noWork (workFromTarget (firstBlock u.stateRoot).header.difficultyTarget)⟩, ?_⟩
  refine bind_eq_ok.mpr ⟨_, orMessage_eq_ok.mpr hheader, ?_⟩
  refine bind_eq_ok.mpr ⟨_, bind_eq_ok.mpr ⟨_, hround, rfl⟩, ?_⟩
  exact failIf_then (not_not.mpr rfl) rfl

omit [Crypto] [Network] in
theorem sortedRows_singleton : sortedRows ((∅ : Map (List UInt8) (List UInt8)).insert key row) = [(key, row)] := by
  rw [sortedRows, Map.keys_insert]
  simp

omit [Network] in
/-- A snapshot of one row loads. -/
theorem firstStorage_load (hs : s.utxos = (∅ : Map (List UInt8) (List UInt8)).insert (serializeOutpointKey op) row)
    (hfits : EntryFits entry) (hrow : serializeUtxoEntry entry = .ok row)
    (hroot : ∀ u : UtxoSet, u.utxos = (∅ : Map OutPoint UtxoEntry).insert op entry → Steps {op}
      UtxoSet.new u → u.stateRoot = header.stateRoot) : ∃ u, loadSnapshot s UtxoSet.new header = .ok u ∧
      u.utxos = (∅ : Map OutPoint UtxoEntry).insert op entry := by
  have hrows : s.iterUtxos = .ok [(op, entry)] := by
    simp only [Storage.iterUtxos, hs, sortedRows_singleton, List.mapM_cons, List.mapM_nil, readUtxoRow,
      deserializeOutpointKey_serialize, deserializeUtxoEntry_serialize hfits hrow]
    rfl
  obtain ⟨u, hinsert, hutxos⟩ : ∃ u, UtxoSet.new.insert op entry = (u, .ok ()) ∧
      u.utxos = (∅ : Map OutPoint UtxoEntry).insert op entry :=
    insert_of_free entry rfl hfits.serializes
  have hseed : seedUtxos UtxoSet.new [(op, entry)] = .ok u := by
    simp only [seedUtxos, List.foldlM_cons, List.foldlM_nil, hinsert]
    rfl
  have hsteps : Steps {op} UtxoSet.new u := Steps.of_insert hinsert rfl
  refine ⟨u, bind_eq_ok.mpr ⟨_, orStorageError_eq_ok.mpr hrows, bind_eq_ok.mpr ⟨u, hseed, ?_⟩⟩, hutxos⟩
  exact failIf_then (not_not.mpr (hroot u hutxos hsteps)) rfl

omit [Network] in
theorem firstStorage_walkStart : walkStart (firstStorage block key row) (some block.header.blockId)
    block.header.blockId 0 = ⟨1, block.header.blockId, chainWork [block]⟩ := by
  have hwork : (firstStorage block key row).work.lookup block.header.blockId =
    some (chainWork [block]) := Finmap.lookup_insert _
  simp only [walkStart, if_true, hwork]
  rfl

theorem firstStorage_open (hheight : block.header.height = 0)
    (hload : loadSnapshot (firstStorage block key row) UtxoSet.new block.header = .ok u) :
    ∃ opened, openChain (firstStorage block key row) UtxoSet.new block.header.blockId false false true =
      .ok opened ∧ opened.utxoSet = u := by
  have hgenesis : (firstStorage block key row).heightIndex.lookup 0 = some block.header.blockId :=
    Finmap.lookup_insert _
  have hsnapshot : (firstStorage block key row).getUtxoSnapshotTip = some block.header.blockId := rfl
  have hheader : (firstStorage block key row).headers.lookup block.header.blockId =
    some block.header := Finmap.lookup_insert _
  have hpath : openChain (firstStorage block key row) UtxoSet.new block.header.blockId false false
      true = openSnapshot (firstStorage block key row) UtxoSet.new block.header.blockId false true
        block.header.blockId := by
    unfold openChain
    rw [hgenesis, hsnapshot]
    simp [firstStorage]
  rw [hpath]
  have hwalk : ∀ proven, walkChain (firstStorage block key row) block.header.blockId proven
      (walkStart (firstStorage block key row) (some block.header.blockId) block.header.blockId
        block.header.height) block.header.blockId block.header.height = .ok (chainWork [block]) := by
    intro proven
    rw [hheight, firstStorage_walkStart, walkChain_eq_ok]
    exact ⟨rfl, rfl⟩
  exact ⟨_, openSnapshot_eq_ok.mpr ⟨block.header, chainWork [block], u, hheader, hwalk _, hload, rfl⟩, rfl⟩

omit [Network] in
theorem firstBlock_outputs (hid : (rewardCoinbase 0).txId = .ok txId)
    (hop : op ∈ canonicalOutputs (firstStorage (firstBlock u.stateRoot) key row)) : op = ⟨txId, 0⟩ := by
  obtain ⟨height, id, block, -, hblock, tx, htx, hop⟩ := hop
  simp only [firstStorage, Map.lookup_insert_eq, Finmap.lookup_empty] at hblock
  split at hblock <;> cases hblock
  obtain rfl := List.mem_singleton.mp htx
  exact List.mem_singleton.mp ((mem_outputsOf hid 0).mp hop)

omit [Network] in
theorem firstStorage_outpoints
    (hop : op' ∈ snapshotOutpoints (firstStorage block (serializeOutpointKey op) row)) : op' = op := by
  obtain ⟨entry, key, value, hrow, hkey, -⟩ := hop
  simp only [firstStorage, Map.lookup_insert_eq, Finmap.lookup_empty] at hrow
  split at hrow
  · rename_i heq
    rw [heq, deserializeOutpointKey_serialize, Option.some.injEq] at hkey
    exact hkey.symm
  · cases hrow

omit [Crypto] [Network] in
theorem firstEntry_serialize : ∃ bytes, firstEntry.output.serialize = .ok bytes ∧ bytes.length = 44 :=
  ⟨leBytes 8 _ ++ (leBytes 2 32 ++ List.replicate 32 0) ++ [0] ++ [0], rfl, by simp⟩

omit [Network] in
theorem firstEntry_oneEntry (hhash : (Crypto.sha256 : List UInt8 → Hash256) = leftHash)
    (hutxos : u.utxos = (∅ : Map OutPoint UtxoEntry).insert ⟨txId, 0⟩ firstEntry)
    (hbytes : firstEntry.output.serialize = .ok bytes) (hlength : bytes.length = 44) :
    OneEntry u ⟨txId, 0⟩ firstEntry bytes ((bytes.headD 0).toNat + 1) where
  utxos := hutxos
  serialize := hbytes
  value := valueHash_left hhash (List.ne_nil_of_length_pos (by omega)) (by omega) (by omega) _ _
  pos := Nat.succ_pos _
  small := (Nat.succ_le_of_lt (bytes.headD 0).toNat_lt).trans_lt (by decide)

end First

omit [Crypto] [Network] in
/-- A database of one block that both accept: `open_chain` loads the snapshot of its output without
a walk, and has the tip and the set of the replay. -/
theorem open_matches_replay_first : let _ := Crypto.ofHash leftHash
    let _ := sampleNetwork
    ∃ s block opened replayed, CanonicalTables s [block] ∧ s.getUtxoSnapshotTip = s.tip ∧
      openChain s UtxoSet.new block.header.blockId false false true = .ok opened ∧
      replayChain s UtxoSet.new block.header.blockId false = .ok replayed ∧
      opened.tip = replayed.tip ∧ opened.utxoSet.utxos = replayed.utxoSet.utxos := by
  intro _ _
  have hhash : (Crypto.sha256 : List UInt8 → Hash256) = leftHash := rfl
  obtain ⟨txId, u, hid, hutxos, happly⟩ := firstBlock_applied
  obtain ⟨bytes, hbytes, hlength⟩ := firstEntry_serialize
  have hfits : EntryFits firstEntry := ⟨by simp [DatumFits, firstEntry], bytes, hbytes⟩
  obtain ⟨row, hrow⟩ := exists_serializeUtxoEntry hfits
  obtain ⟨tip, hreplay⟩ := firstStorage_replay (serializeOutpointKey ⟨txId, 0⟩) row (happly u.stateRoot)
  -- the root of the block is also that of the loaded set
  have hroot : ∀ u' : UtxoSet, u'.utxos = (∅ : Map OutPoint UtxoEntry).insert ⟨txId, 0⟩ firstEntry →
      Steps {⟨txId, 0⟩} UtxoSet.new u' → u'.stateRoot = (firstBlock u.stateRoot).header.stateRoot := by
    intro u' hutxos' hsteps'
    obtain ⟨_, _, -, -, -, hsteps, -⟩ := replayChain_spec rfl hreplay
    have hinv := hsteps.inv (fun op hop op' hop' _ =>
      (firstBlock_outputs hid hop).trans (firstBlock_outputs hid hop').symm) (inv_new _)
    have hinv' := hsteps'.inv (Set.injOn_singleton _ _) (inv_new _)
    exact hinv'.stateRoot_eq hinv (hutxos'.trans hutxos.symm)
  have htables : CanonicalTables (firstStorage (firstBlock u.stateRoot)
      (serializeOutpointKey ⟨txId, 0⟩) row) [firstBlock u.stateRoot] :=
    firstStorage_tables _ _ rfl rfl
  generalize hs : firstStorage (firstBlock u.stateRoot) (serializeOutpointKey ⟨txId, 0⟩) row = s
    at hreplay htables
  have houtputs : ∀ op ∈ canonicalOutputs s, op = ⟨txId, 0⟩ := by
    rw [← hs]
    exact fun op hop => firstBlock_outputs hid hop
  have hrows : ∀ op ∈ snapshotOutpoints s, op = ⟨txId, 0⟩ := by
    rw [← hs]
    exact fun op hop => firstStorage_outpoints hop
  have hopen : ∃ opened, openChain s UtxoSet.new (firstBlock u.stateRoot).header.blockId false false
      true = .ok opened ∧
      opened.utxoSet.utxos = (∅ : Map OutPoint UtxoEntry).insert ⟨txId, 0⟩ firstEntry := by
    rw [← hs]
    have hutxos₀ : (firstStorage (firstBlock u.stateRoot) (serializeOutpointKey ⟨txId, 0⟩) row).utxos =
      (∅ : Map (List UInt8) (List UInt8)).insert (serializeOutpointKey ⟨txId, 0⟩) row := rfl
    obtain ⟨u', hload, hutxos'⟩ := firstStorage_load hutxos₀ hfits hrow hroot
    obtain ⟨opened, hopen, rfl⟩ := firstStorage_open rfl hload
    exact ⟨opened, hopen, hutxos'⟩
  obtain ⟨opened, hopen, hutxos'⟩ := hopen
  have hone := firstEntry_oneEntry hhash hutxos hbytes hlength
  have hone' := firstEntry_oneEntry hhash hutxos' hbytes hlength
  have hpre : Set.LeftInvOn (leftPreimage ⟨txId, 0⟩ fun _ => valuePreimage bytes 0 true)
      Crypto.sha256
      { x | Hashed (canonicalOutputs s) u x ∨ Hashed (snapshotOutpoints s) opened.utxoSet x } := by
    rintro x (hx | hx)
    · exact hone.leftPreimage hhash houtputs rfl hx
    · exact hone'.leftPreimage hhash hrows rfl hx
  obtain ⟨htip, hset, -⟩ := open_matches_replay s _ _ false false true opened _ htables hopen hreplay
    hpre.injOn hone.nonzero hone'.nonzero
  exact ⟨s, _, opened, _, htables, by rw [← hs]; rfl, hopen, hreplay, htip, hset⟩

end Exfer.Proof
