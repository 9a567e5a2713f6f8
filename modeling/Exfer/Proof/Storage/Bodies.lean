import Exfer.Proof.Storage.Commits
import Exfer.Proof.Wire.Transaction

/-!
# Stored bodies have their header and work

Over every sequence of calls that store and evict blocks, each id with a row in `BLOCKS_TABLE` has
one in `HEADERS_TABLE` and in `WORK_TABLE`, as long as no call stores a block that has a row in
`RETAINED_FORK_HEADERS_TABLE` (`bodies_have_headers`). That table tells which headers the cap of
`evict_fork_block` may delete. A block that is evicted gets a row there, but storing it again does
not remove the row, and ten thousand evictions later the cap deletes the header and the work of a
stored body (`bodies_have_headers_counterexample`).
-/

namespace Exfer.Proof

open Lib Impl

variable [Crypto] {s s' : Storage} {id : Hash256} {rows : List (Hash256 × UInt64)}
  {row : Hash256 × UInt64}

/-- A call that stores or evicts blocks. The promoted blocks of a reorg come with their work, as
`process_block` lists them. -/
inductive StoreCall where
  | commitGenesis (fault : Option String) (block : Block) (cumulativeWork : Work)
      (utxoMutations : List UtxoMutation)
  | commitBlock (fault : Option String) (block : Block) (cumulativeWork : Work)
      (spentUtxos : List (OutPoint × UtxoEntry)) (utxoMutations : List UtxoMutation)
  | commitReorg (fault : Option String) (triggerBlock : Block) (cumulativeWork : Work)
      (oldChainBlocks : List Block) (newChainSpent : List (Hash256 × List (OutPoint × UtxoEntry)))
      (newChainMutations : List (Hash256 × List UtxoMutation))
      (newChainHeights : List (UInt64 × Hash256)) (newChain : List (Block × Work))
      (staleHeights : Option (UInt64 × UInt64)) (newTipId : Hash256)
  | storeForkBlock (fault : Option String) (block : Block) (cumulativeWork : Work)
  | evictForkBlock (faults : Nat → Option String) (id : Hash256)

namespace StoreCall

/-- The tables a call leaves behind; a write transaction that fails leaves them as they were. -/
def run (s : Storage) : StoreCall → Storage
  | .commitGenesis fault block work mutations =>
    (s.commitGenesisAtomic fault block work mutations).toOption.getD s
  | .commitBlock fault block work spent mutations =>
    (s.commitBlockAtomic fault block work spent mutations).toOption.getD s
  | .commitReorg fault trigger work old spent mutations heights newChain stale newTip =>
    (s.commitReorgAtomic fault trigger work old spent mutations heights (newChain.map Prod.fst)
      (newChain.map fun x => (x.1.header.blockId, x.2)) stale newTip).toOption.getD s
  | .storeForkBlock fault block work => (s.storeForkBlockAtomic fault block work).toOption.getD s
  | .evictForkBlock faults id => (s.evictForkBlock faults id).1

/-- The ids of the blocks whose bodies a call stores. -/
def stores : StoreCall → List Hash256
  | .commitGenesis _ block _ _ => [block.header.blockId]
  | .commitBlock _ block _ _ _ => [block.header.blockId]
  | .commitReorg _ trigger _ _ _ _ _ newChain _ _ =>
    (trigger :: newChain.map Prod.fst).map fun block => block.header.blockId
  | .storeForkBlock _ block _ => [block.header.blockId]
  | .evictForkBlock _ _ => []

end StoreCall

/-- A block has a row in `RETAINED_FORK_HEADERS_TABLE`. -/
def Retained (s : Storage) (id : Hash256) : Prop :=
  id ∈ s.retainedForkHeaders.map Prod.fst

/-- Stored bodies have their header and their work, and their headers are not up for deletion. -/
structure BodiesKept (s : Storage) : Prop where
  headers : ∀ id ∈ s.blocks, id ∈ s.headers
  work : ∀ id ∈ s.blocks, id ∈ s.work
  unretained : ∀ id ∈ s.blocks, ¬ Retained s id

section

omit [Crypto]

theorem bodiesKept_empty : BodiesKept Storage.empty :=
  ⟨fun _ h => absurd h Finmap.notMem_empty, fun _ h => absurd h Finmap.notMem_empty,
    fun _ h => absurd h Finmap.notMem_empty⟩

/-! ## Commits -/

/-- What a call that stores bodies does: it adds a row to each of the three tables. -/
structure AddsBodies (s s' : Storage) (ids : List Hash256) : Prop where
  blocks : ∀ id, id ∈ s'.blocks ↔ id ∈ s.blocks ∨ id ∈ ids
  headers : ∀ id, id ∈ s'.headers ↔ id ∈ s.headers ∨ id ∈ ids
  work : ∀ id, id ∈ s'.work ↔ id ∈ s.work ∨ id ∈ ids
  retained : s'.retainedForkHeaders = s.retainedForkHeaders

theorem AddsBodies.kept (h : AddsBodies s s' ids) (hs : BodiesKept s)
    (hids : ∀ id ∈ ids, ¬ Retained s id) : BodiesKept s' := by
  refine ⟨fun id hid => ?_, fun id hid => ?_, fun id hid => ?_⟩ <;> rw [h.blocks] at hid
  · exact (h.headers id).mpr (hid.imp_left (hs.headers id))
  · exact (h.work id).mpr (hid.imp_left (hs.work id))
  · rw [Retained, h.retained]
    exact hid.elim (hs.unretained id) (hids id)

theorem addsBodies_of_insert (hblocks : s'.blocks = s.blocks.insert id block)
    (hheaders : s'.headers = s.headers.insert id header) (hwork : s'.work = s.work.insert id cumulativeWork)
    (hretained : s'.retainedForkHeaders = s.retainedForkHeaders) : AddsBodies s s' [id] := by
  refine ⟨fun id' => ?_, fun id' => ?_, fun id' => ?_, hretained⟩
  · rw [hblocks, Finmap.mem_insert, List.mem_singleton, or_comm]
  · rw [hheaders, Finmap.mem_insert, List.mem_singleton, or_comm]
  · rw [hwork, Finmap.mem_insert, List.mem_singleton, or_comm]

end

/-- What a call does to the bodies: nothing, add some, or evict one. -/
theorem StoreCall.run_cases (s : Storage) (c : StoreCall) : c.run s = s ∨ AddsBodies s (c.run s) c.stores ∨
      ∃ faults id, c.run s = (s.evictForkBlock faults id).1 := by
  cases c with
  | commitGenesis fault block work mutations =>
    simp only [run, stores]
    cases h : s.commitGenesisAtomic fault block work mutations with
    | error e => exact .inl rfl
    | ok s' =>
      obtain ⟨utxos, spentBy, -, -, rfl⟩ := commitGenesisAtomic_ok h
      exact .inr (.inl (addsBodies_of_insert rfl rfl rfl rfl))
  | commitBlock fault block work spent mutations =>
    simp only [run, stores]
    cases h : s.commitBlockAtomic fault block work spent mutations with
    | error e => exact .inl rfl
    | ok s' =>
      obtain ⟨spentData, utxos, spentBy, -, -, -, rfl⟩ := commitBlockAtomic_ok h
      exact .inr (.inl (addsBodies_of_insert rfl rfl rfl rfl))
  | commitReorg fault trigger work old spent mutations heights newChain stale newTip =>
    simp only [run, stores]
    cases h : s.commitReorgAtomic fault trigger work old spent mutations heights
      (newChain.map Prod.fst) (newChain.map fun x => (x.1.header.blockId, x.2)) stale newTip with
    | error e => exact .inl rfl
    | ok s' =>
      obtain ⟨spentUtxos, undone, utxos, spentBy, -, -, -, -, rfl⟩ := commitReorgAtomic_ok h
      refine .inr (.inl ⟨fun id => ?_, fun id => ?_, fun id => ?_, rfl⟩)
      · exact Map.mem_foldl_insert
      · exact Map.mem_foldl_insert
      · refine Map.mem_foldl_insert.trans ?_
        simp [Function.comp_def]
  | storeForkBlock fault block work =>
    simp only [run, stores]
    cases h : s.storeForkBlockAtomic fault block work with
    | error e => exact .inl rfl
    | ok s' =>
      obtain ⟨-, rfl⟩ := storeForkBlockAtomic_ok h
      exact .inr (.inl (addsBodies_of_insert rfl rfl rfl rfl))
  | evictForkBlock faults id => exact .inr (.inr ⟨faults, id, rfl⟩)

/-! ## Evictions -/

section

omit [Crypto]

theorem mem_insertRow (h : row ∈ Storage.insertRow rows id height) : row = (id, height) ∨ row ∈ rows := by
  induction rows with
  | nil => exact .inl (List.mem_singleton.mp h)
  | cons row' rest ih =>
    rw [Storage.insertRow] at h
    split at h
    · exact (List.mem_cons.mp h).imp_right (List.mem_cons_of_mem _)
    · split at h
      · exact List.mem_cons.mp h
      · rcases List.mem_cons.mp h with rfl | h
        · exact .inr List.mem_cons_self
        · exact (ih h).imp_right (List.mem_cons_of_mem _)

theorem BodiesKept.dropForkBlock (h : BodiesKept s) (id : Hash256) : BodiesKept (s.dropForkBlock id) := by
  unfold Storage.dropForkBlock
  dsimp only
  split
  · exact ⟨h.headers, h.work, h.unretained⟩
  · refine ⟨fun id' hid => ?_, fun id' hid => ?_, fun id' hid => ?_⟩ <;>
      obtain ⟨hne, hid⟩ := Finmap.mem_erase.mp hid
    · exact h.headers id' hid
    · exact h.work id' hid
    intro hretained
    obtain ⟨row, hrow, rfl⟩ := List.mem_map.mp hretained
    have hold : row ∈ s.retainedForkHeaders := by
      revert hrow
      split
      · intro hrow
        rcases mem_insertRow hrow with rfl | hrow
        · exact absurd rfl hne
        · exact hrow
      · exact fun hrow => hrow
    exact h.unretained row.1 hid (List.mem_map_of_mem hold)

/-- The cap forgets no header of a stored body. -/
theorem BodiesKept.forgetForkHeader (h : BodiesKept s) (hrow : row.1 ∉ s.blocks) :
    BodiesKept (s.forgetForkHeader row) := by
  unfold Storage.forgetForkHeader
  have hne : ∀ id ∈ s.blocks, id ≠ row.1 := by
    rintro id hid rfl
    exact hrow hid
  have hretained : ∀ id ∈ s.blocks, id ∉ (s.retainedForkHeaders.filter fun r => r.1 ≠ row.1).map Prod.fst := by
    intro id hid hmem
    obtain ⟨r, hr, rfl⟩ := List.mem_map.mp hmem
    exact h.unretained r.1 hid (List.mem_map_of_mem (List.mem_of_mem_filter hr))
  dsimp only
  split
  · exact ⟨h.headers, h.work, hretained⟩
  · exact ⟨fun id hid => Finmap.mem_erase.mpr ⟨hne id hid, h.headers id hid⟩,
      fun id hid => Finmap.mem_erase.mpr ⟨hne id hid, h.work id hid⟩, hretained⟩

theorem forgetForkHeader_blocks (s : Storage) (row : Hash256 × UInt64) :
    (s.forgetForkHeader row).blocks = s.blocks := by
  unfold Storage.forgetForkHeader
  dsimp only
  split <;> rfl

end

section

variable (h : BodiesKept s)
include h

section

omit [Crypto]

theorem BodiesKept.forgetForkHeaders (hrows : ∀ row ∈ rows, row.1 ∉ s.blocks) :
    BodiesKept (rows.foldl Storage.forgetForkHeader s) := by
  induction rows generalizing s with
  | nil => exact h
  | cons row rows ih =>
    refine ih (h.forgetForkHeader (hrows row List.mem_cons_self)) fun row' hrow' => ?_
    rw [forgetForkHeader_blocks]
    exact hrows row' (List.mem_cons_of_mem _ hrow')

theorem BodiesKept.enforceRetainedForkHeaderCap (faults : Nat → Option String)
    (maxRetained : Nat) : BodiesKept (s.enforceRetainedForkHeaderCap faults maxRetained).1 := by
  have hexcess : ∀ row ∈ s.excessForkHeaders maxRetained, row.1 ∉ s.blocks := by
    intro row hrow hid
    have hmem := (List.mem_insertionSort _).mp (List.mem_of_mem_take hrow)
    exact h.unretained row.1 hid (List.mem_map_of_mem hmem)
  unfold Storage.enforceRetainedForkHeaderCap
  split
  · exact h
  split
  · exact h
  split
  · exact h
  · exact h.forgetForkHeaders hexcess

theorem BodiesKept.evictForkBlock (faults : Nat → Option String) (id : Hash256) :
    BodiesKept (s.evictForkBlock faults id).1 := by
  unfold Storage.evictForkBlock
  split
  · exact h
  · exact (h.dropForkBlock id).enforceRetainedForkHeaderCap faults _

end

/-! ## Runs -/

theorem BodiesKept.run {c : StoreCall} (hc : ∀ id ∈ c.stores, ¬ Retained s id) : BodiesKept (c.run s) := by
  obtain heq | hadds | ⟨faults, id, heq⟩ := c.run_cases s
  · rwa [heq]
  · exact hadds.kept h hc
  · rw [heq]
    exact h.evictForkBlock faults id

/-- No call stores the body of a block that has a row in `RETAINED_FORK_HEADERS_TABLE`. -/
def StoresUnretained : Storage → List StoreCall → Prop
  | _, [] => True
  | s, c :: calls => (∀ id ∈ c.stores, ¬ Retained s id) ∧ StoresUnretained (c.run s) calls

theorem BodiesKept.runs (hcalls : StoresUnretained s calls) : BodiesKept (calls.foldl StoreCall.run s) := by
  induction calls generalizing s with
  | nil => exact h
  | cons c calls ih => exact ih (h.run hcalls.1) hcalls.2

end

/-- After every sequence of calls none of which stores a block that has a row in
`RETAINED_FORK_HEADERS_TABLE`, every stored body has its header and its work. -/
theorem bodies_have_headers (calls : List StoreCall) (h : StoresUnretained Storage.empty calls) :
    let s := calls.foldl StoreCall.run Storage.empty
    ∀ id ∈ s.blocks, id ∈ s.headers ∧ id ∈ s.work := by
  intro s id hid
  have hkept : BodiesKept s := bodiesKept_empty.runs h
  exact ⟨hkept.headers id hid, hkept.work id hid⟩

/-! ## A body without its header -/

/-- A hash for concrete runs: of a header whose parent is the null block it gives the height. -/
def heightHash (bs : List UInt8) : Hash256 :=
  hashOfBytes (bs.drop 4)

/-- A block without transactions. -/
def emptyBlock (n : Nat) : Block where
  header :=
    { version := version, height := UInt64.ofNat n, prevBlockId := Hash256.zero, timestamp := 0
      difficultyTarget := Hash256.zero, nonce := 0, txRoot := Hash256.zero
      stateRoot := Hash256.zero }
  transactions := []

/-- Its id. -/
def emptyId (n : Nat) : Hash256 :=
  (emptyBlock n).header.blockId

/-- Store it as a fork block. -/
def storeEmpty (n : Nat) : StoreCall :=
  .storeForkBlock none (emptyBlock n) Hash256.zero

/-- Evict it. -/
def evictEmpty (n : Nat) : StoreCall :=
  .evictForkBlock (fun _ => none) (emptyId n)

/-- Block 0 is stored, evicted and stored again; then each of the blocks 1 to `n` is stored and
evicted. -/
def overflow (n : Nat) : List StoreCall :=
  [storeEmpty 0, evictEmpty 0, storeEmpty 0] ++
    (List.range n).flatMap fun i => [storeEmpty (i + 1), evictEmpty (i + 1)]

theorem overflow_succ (s : Storage) (n : Nat) : (overflow (n + 1)).foldl StoreCall.run s =
    (evictEmpty (n + 1)).run ((storeEmpty (n + 1)).run ((overflow n).foldl StoreCall.run s)) := by
  rw [overflow, overflow, List.range_succ, List.flatMap_append, ← List.append_assoc, List.foldl_append]
  rfl

theorem storeEmpty_run (s : Storage) (n : Nat) : (storeEmpty n).run s = { s with
    blocks := s.blocks.insert (emptyId n) (emptyBlock n)
    headers := s.headers.insert (emptyId n) (emptyBlock n).header
    work := s.work.insert (emptyId n) Hash256.zero
    forkBlocks := s.forkBlocks.insert (emptyId n) Hash256.zero } :=
  rfl

/-- Block 0 is stored, and it and the blocks 1 to `k` have been evicted. -/
structure Evicted (k : Nat) (s : Storage) : Prop where
  index : s.heightIndex = ∅
  body : emptyId 0 ∈ s.blocks
  rows : s.retainedForkHeaders.Perm
    ((List.range (k + 1)).map fun i => (emptyId i, UInt64.ofNat i))

omit [Crypto] in
theorem insertRow_perm (height : UInt64) (h : id ∉ rows.map Prod.fst) :
    (Storage.insertRow rows id height).Perm ((id, height) :: rows) := by
  induction rows with
  | nil => exact .refl _
  | cons row rows ih =>
    rw [List.map_cons, List.mem_cons, not_or] at h
    rw [Storage.insertRow, if_neg (Ne.symm h.1)]
    split
    · exact .refl _
    · exact ((ih h.2).cons row).trans (.swap ..)

/-- Storing a block and dropping it leaves a row with its height. -/
theorem store_drop (hindex : s.heightIndex = ∅) (n : Nat) :
    let s' := ((storeEmpty n).run s).dropForkBlock (emptyId n)
    s'.heightIndex = ∅ ∧ (∀ id, id ∈ s'.blocks ↔ id ≠ emptyId n ∧ id ∈ s.blocks) ∧
      s'.retainedForkHeaders =
        Storage.insertRow s.retainedForkHeaders (emptyId n) (UInt64.ofNat n) := by
  have hheader : ((storeEmpty n).run s).headers.lookup (emptyId n) = some (emptyBlock n).header :=
    Finmap.lookup_insert _
  have hcanonical : ((storeEmpty n).run s).isCanonical (emptyId n) (UInt64.ofNat n) = false := by
    rw [Storage.isCanonical, storeEmpty_run]
    simp [hindex]
  unfold Storage.dropForkBlock
  rw [hheader]
  simp only [Option.map_some, Option.any_some, emptyBlock, hcanonical]
  refine ⟨hindex, fun id => ?_, rfl⟩
  refine Finmap.mem_erase.trans (and_congr_right fun hne => ?_)
  exact Finmap.mem_insert.trans (or_iff_right hne)

omit [Crypto] in
theorem enforceRetainedForkHeaderCap_fst (s : Storage) (maxRetained : Nat) :
    (s.enforceRetainedForkHeaderCap (fun _ => none) maxRetained).1 =
      if s.retainedForkHeaders.length ≤ maxRetained then s
      else (s.excessForkHeaders maxRetained).foldl Storage.forgetForkHeader s := by
  exact apply_ite Prod.fst _ _ _

theorem evictEmpty_run (s : Storage) (n : Nat) : (evictEmpty n).run s =
    ((s.dropForkBlock (emptyId n)).enforceRetainedForkHeaderCap (fun _ => none)
      maxRetainedForkHeaders).1 :=
  rfl

section HeightHash

variable (hhash : (Crypto.sha256 : List UInt8 → Hash256) = heightHash)
include hhash

theorem emptyId_inj (hi : i < 2 ^ 64) (hj : j < 2 ^ 64) (h : emptyId i = emptyId j) : i = j := by
  have hid : ∀ n < 2 ^ 64, emptyId n = hashOfBytes (leBytes 8 n ++ (Hash256.zero.toList ++
      (leBytes 8 0 ++ (Hash256.zero.toList ++ (leBytes 8 0 ++
        (Hash256.zero.toList ++ Hash256.zero.toList)))))) := by
    intro n hn
    simp only [emptyId, BlockHeader.blockId, hhash, heightHash, BlockHeader.serialize, emptyBlock,
      List.append_assoc, drop_leBytes_append, UInt64.toNat_ofNat_of_lt' hn]
    rfl
  rw [hid i hi, hid j hj] at h
  exact hashOfBytes_leBytes_inj hi hj (by simp) (by simp) h

theorem Evicted.drop (h : Evicted k s) (hk : k < maxRetainedForkHeaders) :
    Evicted (k + 1) (((storeEmpty (k + 1)).run s).dropForkBlock (emptyId (k + 1))) := by
  have hmax : maxRetainedForkHeaders < 2 ^ 64 := by decide
  obtain ⟨hindex, hblocks, hrows⟩ := store_drop h.index (k + 1)
  refine ⟨hindex, (hblocks _).mpr ⟨fun heq => ?_, h.body⟩, ?_⟩
  · have := emptyId_inj hhash (by omega) (by omega) heq
    omega
  · have hnew : emptyId (k + 1) ∉ s.retainedForkHeaders.map Prod.fst := by
      rw [(h.rows.map Prod.fst).mem_iff, List.map_map, List.mem_map]
      rintro ⟨i, hi, heq⟩
      rw [List.mem_range] at hi
      have := emptyId_inj hhash (by omega) (by omega) heq
      omega
    rw [hrows, List.range_succ, List.map_append]
    exact ((insertRow_perm _ hnew).trans (h.rows.cons _)).trans (List.perm_append_singleton ..).symm

theorem Evicted.overflow (hk : k < maxRetainedForkHeaders) :
    Evicted k ((overflow k).foldl StoreCall.run Storage.empty) := by
  induction k with
  | zero =>
    have hempty : Storage.empty.heightIndex = ∅ := rfl
    obtain ⟨hindex, -, hrows⟩ := store_drop hempty 0
    simp only [Proof.overflow, List.range_zero, List.flatMap_nil, List.append_nil, List.foldl_cons, List.foldl_nil]
    rw [evictEmpty_run, storeEmpty_run, enforceRetainedForkHeaderCap_fst, if_pos]
    · exact ⟨hindex, Finmap.mem_insert.mpr (.inl rfl), .of_eq hrows⟩
    · rw [hrows]
      exact hk
  | succ k ih =>
    have hs := (ih (by omega)).drop hhash (by omega)
    rw [overflow_succ, evictEmpty_run, enforceRetainedForkHeaderCap_fst, if_pos]
    · exact hs
    · rw [hs.rows.length_eq, List.length_map, List.length_range]
      omega

omit hhash in
/-- The cap forgets the lowest row. -/
theorem excess_zero (h : Evicted maxRetainedForkHeaders s) :
    s.excessForkHeaders maxRetainedForkHeaders = [(emptyId 0, 0)] := by
  have hmax : maxRetainedForkHeaders < 2 ^ 64 := by decide
  have hmem : ∀ row, row ∈ s.retainedForkHeaders.insertionSort (fun a b => a.2 ≤ b.2) ↔
      ∃ i ≤ maxRetainedForkHeaders, (emptyId i, UInt64.ofNat i) = row := by
    intro row
    rw [List.mem_insertionSort, h.rows.mem_iff, List.mem_map]
    simp only [List.mem_range, Nat.lt_succ_iff]
  have hsorted := List.pairwise_insertionSort (fun a b : Hash256 × UInt64 => a.2 ≤ b.2)
    s.retainedForkHeaders
  have hlength : s.retainedForkHeaders.length - maxRetainedForkHeaders = 1 := by
    rw [h.rows.length_eq, List.length_map, List.length_range]
    omega
  rw [Storage.excessForkHeaders, hlength]
  have hzero := (hmem _).mpr ⟨0, Nat.zero_le _, rfl⟩
  rcases hrows : s.retainedForkHeaders.insertionSort (fun a b => a.2 ≤ b.2) with _ | ⟨row, rows⟩
  · rw [hrows] at hzero
    cases hzero
  · rw [hrows] at hzero hsorted
    obtain ⟨i, hi, rfl⟩ := (hmem row).mp (by rw [hrows]; exact List.mem_cons_self)
    -- the first row is no higher than that of block 0
    have hle : UInt64.ofNat i ≤ 0 := by
      rcases List.mem_cons.mp hzero with heq | hmem
      · exact UInt64.le_of_eq (congrArg Prod.snd heq).symm
      · exact List.rel_of_pairwise_cons hsorted hmem
    have hi0 : i = 0 := by
      have hlt : i < 2 ^ 64 := by omega
      rw [UInt64.le_iff_toNat_le, UInt64.toNat_ofNat_of_lt' hlt] at hle
      exact Nat.le_zero.mp hle
    rw [hrows, hi0]
    rfl

/-- The eviction that fills the table deletes the header and the work of block 0. -/
theorem overflow_forgets : let s := (overflow maxRetainedForkHeaders).foldl StoreCall.run Storage.empty
    emptyId 0 ∈ s.blocks ∧ emptyId 0 ∉ s.headers ∧ emptyId 0 ∉ s.work := by
  intro s
  obtain ⟨n, hn⟩ : ∃ n, n + 1 = maxRetainedForkHeaders := ⟨9999, by decide⟩
  have hs := (Evicted.overflow hhash (k := n) (by omega)).drop hhash (by omega)
  have hrun := overflow_succ Storage.empty n
  rw [hn] at hrun
  generalize (overflow n).foldl StoreCall.run Storage.empty = s₀ at hs hrun
  rw [hn] at hs
  generalize hdrop : ((storeEmpty maxRetainedForkHeaders).run s₀).dropForkBlock
    (emptyId maxRetainedForkHeaders) = s₁ at hs
  have hforget : s = s₁.forgetForkHeader (emptyId 0, 0) := by
    have hfull : ¬ s₁.retainedForkHeaders.length ≤ maxRetainedForkHeaders := by
      rw [hs.rows.length_eq, List.length_map, List.length_range]
      omega
    rw [evictEmpty_run, hdrop, enforceRetainedForkHeaderCap_fst, if_neg hfull, excess_zero hs] at hrun
    exact hrun
  have hcanonical : ∀ rows, Storage.isCanonical { s₁ with retainedForkHeaders := rows }
      (emptyId 0) 0 = false := by
    intro rows
    simp [Storage.isCanonical, hs.index]
  rw [hforget, Storage.forgetForkHeader]
  simp only [hcanonical, Bool.false_eq_true, if_false]
  exact ⟨hs.body, fun h => (Finmap.mem_erase.mp h).1 rfl, fun h => (Finmap.mem_erase.mp h).1 rfl⟩

end HeightHash

omit [Crypto] in
/-- A block is evicted and stored again; by the time the table is full, its body has lost its header
and its work. -/
theorem bodies_have_headers_counterexample : let _ : Crypto := Crypto.ofHash heightHash
    let s := (overflow maxRetainedForkHeaders).foldl StoreCall.run Storage.empty
    emptyId 0 ∈ s.blocks ∧ emptyId 0 ∉ s.headers ∧ emptyId 0 ∉ s.work := by
  intro _
  exact overflow_forgets rfl

omit [Crypto] in
/-- The theorem applies when a block is stored, and another one stored and evicted. -/
theorem bodies_have_headers_evict : let _ : Crypto := Crypto.ofHash heightHash
    let s := [storeEmpty 0, storeEmpty 1, evictEmpty 1].foldl StoreCall.run Storage.empty
    emptyId 0 ∈ s.blocks ∧ emptyId 0 ∈ s.headers ∧ emptyId 0 ∈ s.work := by
  intro _ s
  have hhash : (Crypto.sha256 : List UInt8 → Hash256) = heightHash := rfl
  have hindex : ((storeEmpty 0).run Storage.empty).heightIndex = ∅ := rfl
  obtain ⟨-, hblocks, hrows⟩ := store_drop hindex 1
  have hs : s = ((storeEmpty 1).run ((storeEmpty 0).run Storage.empty)).dropForkBlock
      (emptyId 1) := by
    refine (evictEmpty_run _ _).trans ?_
    rw [enforceRetainedForkHeaderCap_fst, if_pos]
    exact Nat.le_of_ble_eq_true rfl
  have hne : emptyId 0 ≠ emptyId 1 := by
    intro heq
    have := emptyId_inj hhash (i := 0) (j := 1) (by decide) (by decide) heq
    omega
  have hbody : emptyId 0 ∈ s.blocks := by
    rw [hs, hblocks]
    exact ⟨hne, Finmap.mem_insert.mpr (.inl rfl)⟩
  have hcalls : StoresUnretained Storage.empty [storeEmpty 0, storeEmpty 1, evictEmpty 1] := by
    refine ⟨fun _ _ => ?_, fun _ _ => ?_, fun _ h => ?_, trivial⟩
    · exact List.not_mem_nil
    · exact List.not_mem_nil
    · cases h
  exact ⟨hbody, bodies_have_headers _ hcalls _ hbody⟩

end Exfer.Proof
