import Exfer.Impl.Node
import Mathlib.Data.Finset.Sort

/-!
# Opening the chain at startup

`chain/open.rs`, with the functions of `chain/storage.rs` that only it uses. `openChain` loads the
persisted UTXO snapshot after a structural walk over the canonical chain, or over the part of it
after the walk marker; where there is no usable snapshot it falls back to `replayChain`, which
applies every block. The node stops when either fails, so what they leave in memory then is left
out. The database answers every call.

The index of spent outputs is built from the canonical chain for a database that has none
(`Storage.buildSpentByIndexFromGenesis`).
-/

namespace Exfer.Impl

open Lib (Map failIf)

/-- Why the chain cannot be opened. A message that ends in the debug form of an error carries the
error instead. -/
inductive OpenError where
  | message (msg : String)
  | headerInvalid (height : UInt64) (e : ValidationError)
  | blockInvalid (step : String) (height : UInt64) (e : ValidationError)
  | seedFailed (e : StateError)
  | genesisFailed (e : StateError)
  | panicked
  deriving DecidableEq

/-- A row that has to be there. -/
def orMessage {α : Type} (msg : String) : Option α → Except OpenError α
  | some a => .ok a
  | none => .error (.message msg)

/-- A call of the storage. -/
def orStorageError {α : Type} (context : String) : Except StorageError α → Except OpenError α
  | .ok a => .ok a
  | .error e => .error (.message (context ++ e.display))

/-- A read of the storage. -/
def orReadError {α : Type} (context : String) : Except String α → Except OpenError α
  | .ok a => .ok a
  | .error msg => .error (.message (context ++ msg))

/-! ## The snapshot tables -/

/-- The rows of a table, in the order of their keys. -/
def sortedRows (rows : Map (List UInt8) (List UInt8)) : List (List UInt8 × List UInt8) :=
  (rows.keys.sort (· ≤ ·)).filterMap fun key => (rows.lookup key).map fun value => (key, value)

/-- A row of `iter_utxos`. -/
def readUtxoRow (row : List UInt8 × List UInt8) : Except StorageError (OutPoint × UtxoEntry) :=
  match deserializeOutpointKey row.1 with
  | none => .error (.corruption ("UTXOS_TABLE key not a valid 36-byte OutPoint (len=" ++
      toString row.1.length ++ ")"))
  | some op =>
    match deserializeUtxoEntry row.2 with
    | none => .error (.corruption ("UTXOS_TABLE value for " ++ op.debug ++ " failed to deserialize"))
    | some entry => .ok (op, entry)

namespace Storage

variable (s : Storage)

def iterUtxos : Except StorageError (List (OutPoint × UtxoEntry)) :=
  (sortedRows s.utxos).mapM readUtxoRow

def getUtxoSnapshotTip : Option Hash256 :=
  if s.snapshotComplete then s.snapshotTip else none

def setWalkVerifiedTip (tipId : Hash256) : Storage :=
  { s with walkVerifiedTip := some tipId }

end Storage

variable [Crypto]

/-- The entries of a UTXO set. The source takes them in no particular order, here it is that of
their rows. -/
def UtxoSet.entries (u : UtxoSet) : List (OutPoint × UtxoEntry) :=
  ((u.utxos.keys.image serializeOutpointKey).sort (· ≤ ·)).filterMap fun key => do
    let op ← deserializeOutpointKey key
    let entry ← u.utxos.lookup op
    return (op, entry)

namespace Storage

variable (s : Storage)

def finalizeUtxoSnapshot (u : UtxoSet) (tipId : Hash256) : Except StorageError Storage := do
  let utxos ← applyUtxoMutations s.utxos (u.entries.map fun x => .insert x.1 x.2)
  return { s with
    utxos
    snapshotComplete := true
    snapshotTip := some tipId
    walkVerifiedTip := some tipId }

end Storage

/-! ## The backfill of the spent-by index -/

namespace Storage

variable (s : Storage)

end Storage

/-! ## Steps of the two loops -/

/-- The database, the UTXO set and the tip that the node starts with. -/
structure Opened where
  storage : Storage
  utxoSet : UtxoSet
  tip : ChainTip

/-- The heights from `start` to `last`. -/
def heightsFrom (start : Nat) (last : UInt64) : List UInt64 :=
  (List.range' start (last.toNat + 1 - start)).map UInt64.ofNat

/-- The canonical block at a height, which has to extend `prevId`; the first two texts are those of
a missing index entry and a missing body. -/
def readCanonical (s : Storage) (expectedGenesisId : Hash256)
    (missingIndex : UInt64 → String) (missingBlock : Hash256 → UInt64 → String) (prevId : Hash256)
    (height : UInt64) : Except OpenError (Hash256 × Block) := do
  let blockId ← orMessage (missingIndex height) (s.heightIndex.lookup height)
  failIf (height = 0 ∧ blockId ≠ expectedGenesisId) (.message ("height 0 block " ++ blockId.hex ++
    " does not match expected genesis " ++ expectedGenesisId.hex ++
    "; database belongs to a different chain"))
  let block ← orStorageError ("db error reading block at height " ++ toString height.toNat ++ ": ")
    (s.getBlock none blockId)
  let block ← orMessage (missingBlock blockId height) block
  failIf (block.header.prevBlockId ≠ prevId) (.message ("chain linkage broken at height " ++
    toString height.toNat ++ ": block prev_block_id " ++ block.header.prevBlockId.hex ++
    " != expected " ++ prevId.hex))
  return (blockId, block)

variable [Network]

/-- The rules on the header of a block against its stored ancestors; `reported` is the height the
errors name. -/
def checkStoredHeader (s : Storage) (missingParent : UInt64 → String) (skipPow : Bool)
    (height reported : UInt64) (block : Block) : Except OpenError Unit := do
  let prevId := block.header.prevBlockId
  let parent ← orMessage (missingParent height) (s.headers.lookup prevId)
  let timestamps ← orReadError
    ("db error reading ancestor timestamps at height " ++ toString height.toNat ++ ": ")
    (s.getAncestorTimestamps (fun _ => none) 0 mtpWindow prevId)
  let target ← orReadError ("difficulty computation failed at height " ++ toString height.toNat ++ ": ")
    (Except.mapError DifficultyError.display
      (expectedDifficulty (fun _ id => s.getHeader none id) prevId block.header.height))
  let result := if skipPow then validateBlockHeaderSkipPow block (some parent) timestamps target none
    else validateBlockHeader block (some parent) timestamps target none
  match result with
  | .ok () => .ok ()
  | .error e => .error (.headerInvalid reported e)

/-- Whether the assume-valid checkpoint is a canonical block. -/
def assumeValidProven (s : Storage) (assumeValid : Bool) (tipHeight : UInt64) : Bool :=
  assumeValid ∧ assumeValidHeight ≤ tipHeight ∧
    s.heightIndex.lookup assumeValidHeight = some assumeValidHash

/-- The work before the first block. -/
def noWork : Work := Vector.replicate 32 0

/-! ## Replay -/

/-- Apply a stored block to the UTXO set. -/
def applyStored (skip : Bool) (u : UtxoSet) (block : Block) : Except OpenError UtxoSet :=
  let result := if skip then applyBlockTransactionsAssumeValid block u
    else validateAndApplyBlockTransactionsAtomic block u
  match result with
  | none => .error .panicked
  | some (_, .error e) =>
    .error (.blockInvalid (if skip then "apply" else "validation") block.header.height e)
  | some (u, .ok _) => .ok u

/-- The header checks of a round of `replay_chain`. -/
def checkReplayed (s : Storage) (proven : Bool) (height : UInt64) (block : Block) :
    Except OpenError Unit :=
  if block.header.height > 0 then do
    checkStoredHeader s (fun height => "parent header not found at height " ++
      toString height.toNat ++ " during replay") (proven ∧ height ≤ assumeValidHeight) height
      block.header.height block
    failIf (proven ∧ height = assumeValidHeight ∧ block.header.blockId ≠ assumeValidHash)
      (.message ("assume-valid checkpoint failed during replay at height " ++
        toString assumeValidHeight.toNat ++ ": expected " ++ assumeValidHash.hex ++ ", got " ++
        block.header.blockId.hex))
  else .ok ()

/-- A round of the loop of `replay_chain`, on the UTXO set, the last block and the work so far. -/
def replayBlock (s : Storage) (expectedGenesisId : Hash256) (proven : Bool)
    (state : UtxoSet × Hash256 × Work) (height : UInt64) :
    Except OpenError (UtxoSet × Hash256 × Work) := do
  let (blockId, block) ← readCanonical s expectedGenesisId
    (fun height => "height index missing entry at height " ++ toString height.toNat ++ " during replay")
    (fun id height => "block " ++ id.hex ++ " at height " ++ toString height.toNat ++
      " not found during replay") state.2.1 height
  checkReplayed s proven height block
  let u ← applyStored (proven ∧ height ≤ assumeValidHeight) state.1 block
  failIf (u.stateRoot ≠ block.header.stateRoot) (.message ("state root mismatch at height " ++
    toString block.header.height.toNat ++ ": expected " ++ block.header.stateRoot.hex ++ ", got " ++
    u.stateRoot.hex))
  return (u, blockId, addWork state.2.2 (workFromTarget block.header.difficultyTarget))

/-- The transactions of the first block, with the mutations they make. -/
def applyGenesis (u : UtxoSet) (transactions : List Transaction) :
    Except OpenError (UtxoSet × List UtxoMutation) :=
  transactions.foldlM (fun state tx =>
    match state.1.applyTransaction tx 0 with
    | (_, .error e) => .error (.genesisFailed e)
    | (u, .ok mutations) => .ok (u, state.2 ++ mutations)) (u, [])

/-- `replay_chain` on a database without a tip, which has to be empty. -/
def seedGenesis (s : Storage) (u : UtxoSet) (expectedGenesisId : Hash256) :
    Except OpenError Opened := do
  failIf (s.heightIndex.keys ≠ ∅)
    (.message "tip metadata missing but height index is not empty; database may be corrupt")
  failIf (s.blocks.keys ≠ ∅)
    (.message "tip metadata missing but blocks table is not empty; database may be corrupt")
  match genesisBlock with
  | none => .error .panicked
  | some genesis => do
    let genesisId := genesis.header.blockId
    failIf (genesisId ≠ expectedGenesisId) (.message
      ("cannot bootstrap an empty datadir: only the canonical genesis " ++ genesisId.hex ++
        " is available here, but this node expects " ++ expectedGenesisId.hex ++
        " — the caller must seed its own genesis first (e.g. the devnet path)"))
    let (u, mutations) ← applyGenesis u genesis.transactions
    let work := workFromTarget genesis.header.difficultyTarget
    let storage ← orStorageError "failed to commit genesis: "
      (s.commitGenesisAtomic none genesis work mutations)
    return { storage, utxoSet := u,
             tip := ChainTip.genesis genesisId genesis.header.difficultyTarget }

def replayChain (s : Storage) (u : UtxoSet) (expectedGenesisId : Hash256) (assumeValid : Bool) :
    Except OpenError Opened :=
  match s.tip with
  | none => seedGenesis s u expectedGenesisId
  | some tipId => do
    let tipHeader ← orMessage ("tip block header " ++ tipId.hex ++ " not found")
      (s.headers.lookup tipId)
    let tipHeight := tipHeader.height
    let proven := assumeValidProven s assumeValid tipHeight
    let (u, lastId, work) ← (heightsFrom 0 tipHeight).foldlM
      (replayBlock s expectedGenesisId proven) (u, Hash256.zero, noWork)
    failIf (lastId ≠ tipId) (.message ("replay/tip mismatch: last replayed block " ++ lastId.hex ++
      " != persisted tip " ++ tipId.hex ++ "; height index and tip metadata are inconsistent"))
    return { storage := s, utxoSet := u,
             tip := { blockId := tipId, height := tipHeight, cumulativeWork := work } }

def runReplayAndMaybeMigrate (s : Storage) (u : UtxoSet) (expectedGenesisId : Hash256)
    (assumeValid autoMigrate : Bool) : Except OpenError Opened := do
  let opened ← replayChain s u expectedGenesisId assumeValid
  if autoMigrate then
    match opened.storage.finalizeUtxoSnapshot opened.utxoSet opened.tip.blockId with
    | .ok storage => return { opened with storage }
    | .error e => .error (.message ("Phase 3a snapshot backfill failed: " ++ e.display ++
        ". Replay state is in memory this run, but the next restart will replay again. Restart with " ++
        "--no-auto-migrate to skip the backfill attempt, or investigate disk/space."))
  else return opened

/-! ## The fast path -/

/-- Where the structural walk starts: its first height, and the block and the work before it. With a
usable marker these are the block the marker names and its stored work. -/
structure WalkStart where
  height : Nat
  prevId : Hash256
  work : Work

/-- A walk over the whole chain. -/
def WalkStart.full : WalkStart := ⟨0, Hash256.zero, noWork⟩

/-- The choice among a skipped, a shortened and a full walk. The greatest height is not reached by
a chain, so that the height after it does not wrap around. -/
def walkStart (s : Storage) (marker : Option Hash256) (tipId : Hash256) (tipHeight : UInt64) :
    WalkStart :=
  match marker with
  | none => .full
  | some id =>
    if id = tipId then
      match s.work.lookup tipId with
      | some work => ⟨tipHeight.toNat + 1, tipId, work⟩
      | none => .full
    else
      match s.headers.lookup id, s.work.lookup id with
      | some header, some work =>
        if header.height ≤ tipHeight then ⟨header.height.toNat + 1, id, work⟩ else .full
      | _, _ => .full

/-- The header checks of a round of the structural walk. -/
def checkWalked (s : Storage) (proven : Bool) (height : UInt64) (block : Block) :
    Except OpenError Unit :=
  if height > 0 then
    checkStoredHeader s (fun height => "parent header not found at height " ++
      toString height.toNat) (proven ∧ height ≤ assumeValidHeight) height height block
  else .ok ()

/-- A round of the structural walk, on the last block and the work so far. -/
def walkBlock (s : Storage) (expectedGenesisId : Hash256) (proven : Bool) (state : Hash256 × Work)
    (height : UInt64) : Except OpenError (Hash256 × Work) := do
  let (blockId, block) ← readCanonical s expectedGenesisId
    (fun height => "height index missing entry at height " ++ toString height.toNat ++
      " during open_chain walk")
    (fun id height => "canonical block " ++ id.hex ++ " at height " ++ toString height.toNat ++
      " missing during open_chain walk") state.1 height
  checkWalked s proven height block
  return (blockId, addWork state.2 (workFromTarget block.header.difficultyTarget))

/-- The structural walk, which has to end at the tip; the work of the chain. -/
def walkChain (s : Storage) (expectedGenesisId : Hash256) (proven : Bool) (start : WalkStart)
    (tipId : Hash256) (tipHeight : UInt64) : Except OpenError Work := do
  let (lastId, work) ← (heightsFrom start.height tipHeight).foldlM
    (walkBlock s expectedGenesisId proven) (start.prevId, start.work)
  failIf (lastId ≠ tipId) (.message ("open_chain/tip mismatch: last walked block " ++ lastId.hex ++
    " != persisted tip " ++ tipId.hex ++ "; height index and tip metadata are inconsistent"))
  return work

/-- Load the persisted entries into the UTXO set. -/
def seedUtxos (u : UtxoSet) (entries : List (OutPoint × UtxoEntry)) : Except OpenError UtxoSet :=
  entries.foldlM (fun u x =>
    match u.insert x.1 x.2 with
    | (_, .error e) => .error (.seedFailed e)
    | (u, .ok ()) => .ok u) u

/-- Load the snapshot, whose root has to be that of the tip. -/
def loadSnapshot (s : Storage) (u : UtxoSet) (tipHeader : BlockHeader) :
    Except OpenError UtxoSet := do
  let entries ← orStorageError "failed to read UTXOS_TABLE: " s.iterUtxos
  let u ← seedUtxos u entries
  failIf (u.stateRoot ≠ tipHeader.stateRoot) (.message ("UTXO snapshot state_root " ++
    u.stateRoot.hex ++ " does not match tip header state_root " ++ tipHeader.stateRoot.hex ++
    "; on-disk snapshot is corrupt. Run with --rebuild-state to recover from a full chain replay."))
  return u

/-- The part of `open_chain` after the snapshot marker has been found to name the tip. -/
def openSnapshot (s : Storage) (u : UtxoSet) (expectedGenesisId : Hash256)
    (assumeValid trustWalkMarker : Bool) (tipId : Hash256) : Except OpenError Opened := do
  let tipHeader ← orMessage ("tip block header " ++ tipId.hex ++ " not found")
    (s.headers.lookup tipId)
  let tipHeight := tipHeader.height
  let marker := if trustWalkMarker then s.walkVerifiedTip else none
  let start := walkStart s marker tipId tipHeight
  let work ← walkChain s expectedGenesisId (assumeValidProven s assumeValid tipHeight) start tipId
    tipHeight
  let u ← loadSnapshot s u tipHeader
  return { storage := if start.height ≤ tipHeight.toNat then s.setWalkVerifiedTip tipId else s
           utxoSet := u
           tip := { blockId := tipId, height := tipHeight, cumulativeWork := work } }

def openChain (s : Storage) (u : UtxoSet) (expectedGenesisId : Hash256)
    (assumeValid autoMigrate trustWalkMarker : Bool) : Except OpenError Opened :=
  match s.tip with
  | none => replayChain s u expectedGenesisId assumeValid
  | some tipId =>
    match s.heightIndex.lookup 0 with
    | none => runReplayAndMaybeMigrate s u expectedGenesisId assumeValid autoMigrate
    | some stored =>
      if stored ≠ expectedGenesisId then
        .error (.message ("genesis mismatch: datadir genesis is " ++ stored.hex ++
          " but this node expects " ++ expectedGenesisId.hex ++
          " — refusing to load a chain from a different network (e.g. an \u0060exfer devnet\u0060 " ++
          "datadir opened as a networked node)"))
      else if s.getUtxoSnapshotTip = some tipId then
        openSnapshot s u expectedGenesisId assumeValid trustWalkMarker tipId
      else runReplayAndMaybeMigrate s u expectedGenesisId assumeValid autoMigrate

end Exfer.Impl
