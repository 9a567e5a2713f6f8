import Exfer.Proof.Storage.Bodies
import Exfer.Spec.Node

/-!
# The pool of fork blocks and the canonical chain

Storing and evicting fork blocks leaves the rows of the canonical blocks and the indexes alone
(`KeepsChain`): `evict_fork_block` and the cap on retained headers check the height index before
they delete, and a block is stored as a fork block only if it has no row or has just been demoted.
-/

namespace Exfer.Proof

open Lib Impl Spec

variable [Crypto] {block : Block}

/-- A row of `RETAINED_FORK_HEADERS_TABLE` has the id and the height of one of the blocks. -/
def RetainedRow (known : List Block) (row : Hash256 × UInt64) : Prop :=
  ∃ block ∈ known, block.header.blockId = row.1 ∧ block.header.height = row.2

/-- What is stored comes from the given blocks, under their ids. -/
structure StoredFrom (known : List Block) (s : Storage) : Prop where
  blocks : ∀ id block, s.blocks.lookup id = some block → block ∈ known ∧ block.header.blockId = id
  headers : ∀ id header, s.headers.lookup id = some header →
    ∃ block ∈ known, block.header = header ∧ header.blockId = id
  retained : ∀ row ∈ s.retainedForkHeaders, RetainedRow known row

/-- The block is stored under its id. -/
def HasBody (s : Storage) (block : Block) : Prop :=
  s.blocks.lookup block.header.blockId = some block

/-- The rows of the chain and the indexes are the same in both databases. -/
structure KeepsChain (chain : List Block) (s s' : Storage) : Prop where
  heightIndex : s'.heightIndex = s.heightIndex
  tip : s'.tip = s.tip
  txIndex : s'.txIndex = s.txIndex
  spentBy : s'.spentBy = s.spentBy
  utxos : s'.utxos = s.utxos
  blocks : ∀ block ∈ chain,
    s'.blocks.lookup block.header.blockId = s.blocks.lookup block.header.blockId
  headers : ∀ block ∈ chain,
    s'.headers.lookup block.header.blockId = s.headers.lookup block.header.blockId
  work : ∀ block ∈ chain, s'.work.lookup block.header.blockId = s.work.lookup block.header.blockId
  spentUtxos : ∀ block ∈ chain,
    s'.spentUtxos.lookup block.header.blockId = s.spentUtxos.lookup block.header.blockId

section Keeps

variable {chain : List Block} {s s' : Storage}

theorem KeepsChain.refl (chain : List Block) (s : Storage) : KeepsChain chain s s :=
  ⟨rfl, rfl, rfl, rfl, rfl, fun _ _ => rfl, fun _ _ => rfl, fun _ _ => rfl, fun _ _ => rfl⟩

theorem KeepsChain.trans (h : KeepsChain chain s s') (h' : KeepsChain chain s' s'') : KeepsChain chain s s'' where
  heightIndex := h'.heightIndex.trans h.heightIndex
  tip := h'.tip.trans h.tip
  txIndex := h'.txIndex.trans h.txIndex
  spentBy := h'.spentBy.trans h.spentBy
  utxos := h'.utxos.trans h.utxos
  blocks block hblock := (h'.blocks block hblock).trans (h.blocks block hblock)
  headers block hblock := (h'.headers block hblock).trans (h.headers block hblock)
  work block hblock := (h'.work block hblock).trans (h.work block hblock)
  spentUtxos block hblock := (h'.spentUtxos block hblock).trans (h.spentUtxos block hblock)

theorem KeepsChain.tables (h : KeepsChain chain s s') (htables : CanonicalTables s chain) :
    CanonicalTables s' chain where
  chained := htables.chained
  tip := h.tip.trans htables.tip
  index height id := by rw [h.heightIndex, htables.index]
  body block hblock := (h.blocks block hblock).trans (htables.body block hblock)
  header block hblock := (h.headers block hblock).trans (htables.header block hblock)
  work block below hsuffix :=
    (h.work block (hsuffix.subset List.mem_cons_self)).trans (htables.work block below hsuffix)

theorem KeepsChain.indexes (h : KeepsChain chain s s') (hindexes : CanonicalIndexes s chain) :
    CanonicalIndexes s' chain where
  txIndex txId height := by rw [h.txIndex, hindexes.txIndex]
  spentBy key value := by rw [h.spentBy, hindexes.spentBy]

end Keeps

/-- The canonical tables describe the chain, and what is stored comes from the blocks. -/
structure ForkDb (known chain : List Block) (s : Storage) : Prop where
  tables : CanonicalTables s chain
  stored : StoredFrom known s

/-- What a step of the fork pool does to such a database. -/
structure ForkStep (known chain : List Block) (s s' : Storage) : Prop where
  keeps : KeepsChain chain s s'
  stored : StoredFrom known s'

section Steps

variable {known chain : List Block} {s s' : Storage}

theorem ForkDb.refl (h : ForkDb known chain s) : ForkStep known chain s s :=
  ⟨.refl chain s, h.stored⟩

theorem ForkStep.db (h : ForkStep known chain s s') (hdb : ForkDb known chain s) : ForkDb known chain s' :=
  ⟨h.keeps.tables hdb.tables, h.stored⟩

theorem ForkStep.trans (h : ForkStep known chain s s') (h' : ForkStep known chain s' s'') :
    ForkStep known chain s s'' :=
  ⟨h.keeps.trans h'.keeps, h'.stored⟩

theorem ForkDb.mem (h : ForkDb known chain s) (hblock : block ∈ chain) : block ∈ known :=
  (h.stored.blocks _ _ (h.tables.body block hblock)).1

theorem ForkDb.isCanonical (h : ForkDb known chain s) (hblock : block ∈ chain) :
    s.isCanonical block.header.blockId block.header.height = true :=
  decide_eq_true ((h.tables.index _ _).mpr ⟨block, hblock, rfl, rfl⟩)

/-! ## Evictions -/

section

variable (h : ForkDb known chain s)
include h

theorem ForkDb.dropForkBlock (id : Hash256) : ForkStep known chain s (s.dropForkBlock id) := by
  unfold Storage.dropForkBlock
  dsimp only
  split
  · exact ⟨⟨rfl, rfl, rfl, rfl, rfl, fun _ _ => rfl, fun _ _ => rfl, fun _ _ => rfl, fun _ _ => rfl⟩,
      h.stored.blocks, h.stored.headers, h.stored.retained⟩
  rename_i hcanonical
  have hne : ∀ block ∈ chain, block.header.blockId ≠ id := by
    rintro block hblock rfl
    rw [h.tables.header block hblock] at hcanonical
    exact hcanonical (h.isCanonical hblock)
  refine ⟨⟨rfl, rfl, rfl, rfl, rfl, ?_, fun _ _ => rfl, fun _ _ => rfl, ?_⟩, ?_, h.stored.headers, ?_⟩
  iterate 2
    · exact fun block hblock => Finmap.lookup_erase_ne (hne block hblock)
  · intro id' block hlookup
    rw [Map.lookup_erase_eq] at hlookup
    split at hlookup
    · cases hlookup
    · exact h.stored.blocks id' block hlookup
  · intro row hrow
    split at hrow
    · rename_i height hheight
      rcases mem_insertRow hrow with rfl | hrow
      · obtain ⟨header, hheader, rfl⟩ := Option.map_eq_some_iff.mp hheight
        obtain ⟨block, hblock, rfl, hid⟩ := h.stored.headers id header hheader
        exact ⟨block, hblock, hid, rfl⟩
      · exact h.stored.retained row hrow
    · exact h.stored.retained row hrow

section

variable (hids : BlockIdsDistinct known)
include hids

/-- The cap forgets no header of a canonical block: its row has the height of the block. -/
theorem ForkDb.forgetForkHeader (hrow : RetainedRow known row) : ForkStep known chain s (s.forgetForkHeader row) := by
  have hretained : ∀ r ∈ s.retainedForkHeaders.filter fun r => r.1 ≠ row.1, RetainedRow known r :=
    fun r hr => h.stored.retained r (List.mem_of_mem_filter hr)
  unfold Storage.forgetForkHeader
  dsimp only
  split
  · exact ⟨⟨rfl, rfl, rfl, rfl, rfl, fun _ _ => rfl, fun _ _ => rfl, fun _ _ => rfl, fun _ _ => rfl⟩,
      h.stored.blocks, h.stored.headers, hretained⟩
  rename_i hcanonical
  have hne : ∀ block ∈ chain, block.header.blockId ≠ row.1 := by
    intro block hblock hid
    obtain ⟨other, hother, hid', hheight⟩ := hrow
    have hheader := hids.ids block (h.mem hblock) other hother (hid.trans hid'.symm)
    refine hcanonical ?_
    rw [← hheight, ← hheader, ← hid]
    exact h.isCanonical hblock
  refine ⟨⟨rfl, rfl, rfl, rfl, rfl, fun _ _ => rfl, ?_, ?_, ?_⟩, h.stored.blocks, ?_, hretained⟩
  iterate 3
    · exact fun block hblock => Finmap.lookup_erase_ne (hne block hblock)
  · intro id header hlookup
    rw [Map.lookup_erase_eq] at hlookup
    split at hlookup
    · cases hlookup
    · exact h.stored.headers id header hlookup

theorem ForkDb.forgetForkHeaders {rows : List (Hash256 × UInt64)} (hrows : ∀ row ∈ rows, RetainedRow known row) :
    ForkStep known chain s (rows.foldl Storage.forgetForkHeader s) := by
  induction rows generalizing s with
  | nil => exact h.refl
  | cons row rows ih =>
    have hstep := h.forgetForkHeader hids (hrows row List.mem_cons_self)
    exact hstep.trans (ih (hstep.db h) fun r hr => hrows r (List.mem_cons_of_mem _ hr))

theorem ForkDb.enforceRetainedForkHeaderCap (faults : Nat → Option String) (maxRetained : Nat) :
    ForkStep known chain s (s.enforceRetainedForkHeaderCap faults maxRetained).1 := by
  unfold Storage.enforceRetainedForkHeaderCap
  split
  · exact h.refl
  split
  · exact h.refl
  split
  · exact h.refl
  refine h.forgetForkHeaders hids fun row hrow => h.stored.retained row ?_
  exact (List.mem_insertionSort _).mp (List.mem_of_mem_take hrow)

theorem ForkDb.evictForkBlock (faults : Nat → Option String) (id : Hash256) :
    ForkStep known chain s (s.evictForkBlock faults id).1 := by
  unfold Storage.evictForkBlock
  split
  · exact h.refl
  have hdrop := h.dropForkBlock id
  exact hdrop.trans ((hdrop.db h).enforceRetainedForkHeaderCap hids faults _)

theorem ForkDb.evictAll (faults : Nat → Nat → Option String) (n : Nat) (ids : List Hash256) :
    ForkStep known chain s (Impl.evictAll faults n s ids).1 := by
  induction ids generalizing s n with
  | nil => exact h.refl
  | cons id ids ih =>
    have hstep := h.evictForkBlock hids (faults n) id
    unfold Impl.evictAll
    split
    · rename_i heq
      rwa [heq] at hstep
    · rename_i heq
      rw [heq] at hstep
      exact hstep.trans (ih (hstep.db h) (n + 1))

theorem ForkDb.evictTrimmed [Network] (faults : Faults) (n : Nat) (ids : List Hash256) :
    ForkStep known chain s (Node.evictTrimmed faults n s ids) := by
  induction ids generalizing s n with
  | nil => exact h.refl
  | cons id ids ih =>
    have hstep := h.evictForkBlock hids (fun i => faults (.demotedTrim n i)) id
    exact hstep.trans (ih (hstep.db h) (n + 1))

end

/-! ## Stores -/

theorem ForkDb.storeForkBlock (hblock : block ∈ known)
    (hsame : ∀ b ∈ chain, b.header.blockId = block.header.blockId → b = block ∧ s.work.lookup
      block.header.blockId = some cumulativeWork)
    (hstore : s.storeForkBlockAtomic fault block cumulativeWork = .ok s') : ForkStep known chain s s' := by
  obtain ⟨-, rfl⟩ := storeForkBlockAtomic_ok hstore
  -- a row of a canonical block is written again as it is
  have hkeep : ∀ {α : Type} {m : Map Hash256 α} {a : α}, (∀ b ∈ chain,
      b.header.blockId = block.header.blockId → m.lookup block.header.blockId = some a) →
      ∀ b ∈ chain, (m.insert block.header.blockId a).lookup b.header.blockId =
        m.lookup b.header.blockId := by
    intro α m a hrow b hb
    rw [Map.lookup_insert_eq]
    split
    · rename_i hid
      rw [hid, hrow b hb hid]
    · rfl
  refine ⟨⟨rfl, rfl, rfl, rfl, rfl, hkeep ?_, hkeep ?_, hkeep ?_, fun _ _ => rfl⟩, ?_, ?_, h.stored.retained⟩
  · intro b hb hid
    obtain ⟨rfl, -⟩ := hsame b hb hid
    exact h.tables.body b hb
  · intro b hb hid
    obtain ⟨rfl, -⟩ := hsame b hb hid
    exact h.tables.header b hb
  · exact fun b hb hid => (hsame b hb hid).2
  · intro id b hlookup
    rw [Map.lookup_insert_eq] at hlookup
    split at hlookup
    · cases hlookup
      exact ⟨hblock, (‹_› : id = _).symm⟩
    · exact h.stored.blocks id b hlookup
  · intro id header hlookup
    rw [Map.lookup_insert_eq] at hlookup
    split at hlookup
    · cases hlookup
      exact ⟨block, hblock, rfl, (‹_› : id = _).symm⟩
    · exact h.stored.headers id header hlookup

end

theorem HasBody.storeForkBlock (hb : HasBody s b) (hblock : HasBody s block)
    (hstore : s.storeForkBlockAtomic fault block cumulativeWork = .ok s') : HasBody s' b := by
  obtain ⟨-, rfl⟩ := storeForkBlockAtomic_ok hstore
  unfold HasBody
  rw [Map.lookup_insert_eq]
  split
  · rename_i hid
    rw [HasBody, hid, hblock] at hb
    exact hb
  · exact hb

/-- Demotion writes the rows of blocks that are stored. -/
theorem ForkDb.demoteBlocks [Network] (h : ForkDb known chain s) (faults : Faults) (n : Nat)
    (hbody : ∀ b ∈ olds, HasBody s b) : ForkStep known chain s (Node.demoteBlocks faults n s olds).1 := by
  induction olds generalizing s n with
  | nil => exact h.refl
  | cons blk olds ih =>
    obtain ⟨hblk, holds⟩ := List.forall_mem_cons.mp hbody
    unfold Node.demoteBlocks
    split
    · rename_i work hwork
      split
      · exact ih h (n + 1) holds
      rename_i hstore
      have hstep := h.storeForkBlock (h.stored.blocks _ _ hblk).1 (fun b hb hid => by
        have hrow := h.tables.body b hb
        rw [hid, hblk] at hrow
        exact ⟨(Option.some.inj hrow).symm, (answer_eq_ok.mp hwork).2⟩) hstore
      exact hstep.trans (ih (hstep.db h) (n + 1) fun b hb => (holds b hb).storeForkBlock hblk hstore)
    · exact ih h (n + 1) holds

end Steps

/-! ## Fork blocks of a node -/

/-- A step of the fork pool of a node: neither the UTXO set nor the tip changes. -/
structure PoolStep (known chain : List Block) (node node' : Node) : Prop where
  storage : ForkStep known chain node.storage node'.storage
  utxoSet : node'.utxoSet = node.utxoSet
  tip : node'.tip = node.tip

section Pool

variable {known chain : List Block} {node : Node}

section

variable (h : ForkDb known chain node.storage)
include h

theorem ForkDb.pool_refl : PoolStep known chain node node :=
  ⟨h.refl, rfl, rfl⟩

section

variable (hids : BlockIdsDistinct known)
include hids

theorem ForkDb.admitForkBlock (faults : Faults) (cumulativeWork : Work)
    (evicted : Option Hash256) (hblock : block ∈ known)
    (hnew : ∀ b ∈ chain, b.header.blockId ≠ block.header.blockId) :
    PoolStep known chain node (node.admitForkBlock faults block cumulativeWork evicted).1 := by
  have hroom : ForkStep known chain node.storage (node.makeForkRoom faults evicted).1 := by
    cases evicted with
    | none => exact h.refl
    | some id => exact h.evictForkBlock hids _ id
  unfold Node.admitForkBlock
  dsimp only
  split
  · rename_i heq
    rw [heq] at hroom
    exact ⟨hroom, rfl, rfl⟩
  rename_i heq
  rw [heq] at hroom
  split
  · exact ⟨hroom, rfl, rfl⟩
  rename_i hstore
  have hstored := hroom.trans ((hroom.db h).storeForkBlock hblock (fun b hb hid => absurd hid (hnew b hb)) hstore)
  split
  · exact ⟨hstored, rfl, rfl⟩
  · exact ⟨hstored, rfl, rfl⟩
  generalize Node.commitForkBlock _ _ _ _ = committed
  have htrimmed := hstored.trans ((hstored.db h).evictAll hids (fun n i => faults (.forkTrim n i)) 0 committed.2)
  split
  iterate 2
    · rename_i heq
      rw [heq] at htrimmed
      exact ⟨htrimmed, rfl, rfl⟩

theorem ForkDb.tryStoreForkBlock (faults : Faults) (cumulativeWork : Work) (hblock : block ∈ known) :
    PoolStep known chain node (node.tryStoreForkBlock faults block cumulativeWork).1 := by
  unfold Node.tryStoreForkBlock
  dsimp only
  split
  · exact h.pool_refl
  · exact h.pool_refl
  rename_i hhas
  -- a block without a row is not a canonical one
  have hnew : ∀ b ∈ chain, b.header.blockId ≠ block.header.blockId := by
    intro b hb hid
    have hnone : (node.storage.blocks.lookup block.header.blockId).isSome = false :=
      (answer_eq_ok.mp hhas).2
    rw [← hid, h.tables.body b hb] at hnone
    cases hnone
  split
  · exact h.pool_refl
  split
  · exact h.pool_refl
  split
  · exact h.pool_refl
  split
  · exact h.pool_refl
  · exact h.admitForkBlock hids faults cumulativeWork _ hblock hnew

theorem ForkDb.storeFork (faults : Faults) (newTip : ChainTip) (hblock : block ∈ known) :
    PoolStep known chain node (node.storeFork faults block newTip).1 := by
  have hstep := h.tryStoreForkBlock hids faults newTip.cumulativeWork hblock
  unfold Node.storeFork
  split
  · exact h.pool_refl
  split
  · exact h.pool_refl
  split
  · exact h.pool_refl
  split
  · rename_i heq
    rwa [heq] at hstep
  · rename_i heq
    rwa [heq] at hstep

theorem ForkDb.demote [Network] (faults : Faults) (newChain : List Block)
    (hbody : ∀ b ∈ oldChain, HasBody node.storage b) :
    PoolStep known chain node (node.demote faults oldChain newChain) := by
  have hdemoted := h.demoteBlocks faults 0 hbody
  have htrimmed := fun ids => hdemoted.trans ((hdemoted.db h).evictTrimmed hids faults 0 ids)
  unfold Node.demote
  dsimp only
  generalize trimPool _ _ _ = trimmed
  exact ⟨htrimmed trimmed.2, rfl, rfl⟩

end

end

end Pool

end Exfer.Proof
