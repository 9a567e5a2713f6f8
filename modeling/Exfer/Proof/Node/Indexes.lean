import Exfer.Lib.Table
import Exfer.Proof.Node.Chain

/-!
# The rows of the indexes

`TX_INDEX_TABLE` and `SPENT_BY_TABLE` hold the rows of the blocks of the canonical chain (`txRows`,
`spentRows`), which have different keys because nothing repeats along the chain
(`indexable_of_noRepeats`). Indexing a block inserts its rows and reverting it erases them, so that
both are tables of what is left.
-/

namespace Exfer.Proof

open Lib Impl Spec UtxoSet

variable [Crypto] {chain : List Block}

/-! ## Rows -/

/-- The rows of a block in `TX_INDEX_TABLE`. -/
def txRows (block : Block) : List (Hash256 × UInt64) :=
  block.transactions.filterMap fun tx =>
    match tx.txId with
    | .ok txId => some (txId, block.header.height)
    | .error _ => none

/-- The rows of a transaction in `SPENT_BY_TABLE`, from input `i` on. -/
def inputRows (txId : Hash256) (height : UInt64) (i : Nat) (inputs : List TxInput) :
    List (List UInt8 × List UInt8) :=
  (inputs.zipIdx i).map fun x =>
    (serializeOutpointKey x.1.outPoint, serializeSpentByValue txId x.2 height)

/-- The rows of a block in `SPENT_BY_TABLE`. -/
def spentRows (block : Block) : List (List UInt8 × List UInt8) :=
  block.transactions.flatMap fun tx =>
    if tx.isCoinbase then []
    else
      match tx.txId with
      | .ok txId => inputRows txId block.header.height 0 tx.inputs
      | .error _ => []

/-- All transactions of the block have ids. -/
def HasIds (block : Block) : Prop :=
  ∀ tx ∈ block.transactions, ∃ txId, tx.txId = .ok txId

section Rows

variable {block : Block} {m : Map (List UInt8) (List UInt8)} {txId : Hash256} {height : UInt64}
  {inputs : List TxInput} {key value : List UInt8} {i : Nat}

theorem mem_txRows : (txId, height) ∈ txRows block ↔
    block.header.height = height ∧ ∃ tx ∈ block.transactions, tx.txId = .ok txId := by
  rw [txRows, List.mem_filterMap]
  constructor
  · rintro ⟨tx, htx, hrow⟩
    split at hrow <;> cases hrow
    rename_i hid
    exact ⟨rfl, tx, htx, hid⟩
  · rintro ⟨rfl, tx, htx, hid⟩
    exact ⟨tx, htx, by rw [hid]⟩

omit [Crypto] in
theorem mem_inputRows : (key, value) ∈ inputRows txId height 0 inputs ↔
      ∃ i op, inputs[i]?.map TxInput.outPoint = some op ∧ key = serializeOutpointKey op ∧
        value = serializeSpentByValue txId i height := by
  simp only [inputRows, List.mem_map, Prod.exists, List.mk_mem_zipIdx_iff_getElem?, Prod.mk.injEq,
    Option.map_eq_some_iff]
  constructor
  · rintro ⟨input, i, hinput, rfl, rfl⟩
    exact ⟨i, _, ⟨input, hinput, rfl⟩, rfl, rfl⟩
  · rintro ⟨i, _, ⟨input, hinput, rfl⟩, rfl, rfl⟩
    exact ⟨input, i, hinput, rfl, rfl⟩

theorem mem_spentRows : (key, value) ∈ spentRows block ↔
    ∃ tx ∈ block.transactions, tx.isCoinbase = false ∧ ∃ txId, tx.txId = .ok txId ∧
      ∃ i op, tx.inputs[i]?.map TxInput.outPoint = some op ∧ key = serializeOutpointKey op ∧
        value = serializeSpentByValue txId i block.header.height := by
  rw [spentRows, List.mem_flatMap]
  refine exists_congr fun tx => and_congr_right fun _ => ?_
  cases tx.isCoinbase with
  | true => simp
  | false =>
    cases hid : tx.txId with
    | error e => simp
    | ok txId => simp [mem_inputRows]

theorem txAt_iff : TxAt chain txId height ↔ (txId, height) ∈ chain.flatMap txRows := by
  simp only [TxAt, List.mem_flatMap, mem_txRows]

theorem spentAt_iff : (∃ op spender input height, SpentAt chain op spender input height ∧
      key = serializeOutpointKey op ∧ value = serializeSpentByValue spender input height) ↔
        (key, value) ∈ chain.flatMap spentRows := by
  simp only [SpentAt, List.mem_flatMap, mem_spentRows]
  constructor
  · rintro ⟨op, spender, i, _, ⟨block, hblock, rfl, tx, htx, hcoinbase, hid, hop⟩, rfl, rfl⟩
    exact ⟨block, hblock, tx, htx, hcoinbase, spender, hid, i, op, hop, rfl, rfl⟩
  · rintro ⟨block, hblock, tx, htx, hcoinbase, spender, hid, i, op, hop, rfl, rfl⟩
    exact ⟨op, spender, i, _, ⟨block, hblock, rfl, tx, htx, hcoinbase, hid, hop⟩, rfl, rfl⟩

theorem canonicalIndexes_iff : CanonicalIndexes s chain ↔
    s.txIndex.IsTable (fun k v => (k, v) ∈ chain.flatMap txRows) ∧
      s.spentBy.IsTable (fun k v => (k, v) ∈ chain.flatMap spentRows) :=
  ⟨fun h => ⟨fun k v => (h.txIndex k v).trans txAt_iff, fun k v => (h.spentBy k v).trans spentAt_iff⟩,
    fun h => ⟨fun k v => (h.1 k v).trans txAt_iff.symm, fun k v => (h.2 k v).trans spentAt_iff.symm⟩⟩

/-! ## Indexing and reverting -/

theorem indexTxs_eq (txIndex : Map Hash256 UInt64) : indexTxs txIndex block = txIndex.insertAll (txRows block) := by
  rw [indexTxs, txRows, Map.insertAll, List.foldl_filterMap]
  congr 1
  funext idx tx
  cases tx.txId <;> rfl

theorem unindexTxs_eq (txIndex : Map Hash256 UInt64) : unindexTxs txIndex block =
    txIndex.eraseAll ((txRows block).map Prod.fst) := by
  rw [unindexTxs, txRows, Map.eraseAll, List.foldl_map, List.foldl_filterMap]
  congr 1
  funext idx tx
  cases tx.txId <;> rfl

section

omit [Crypto]

theorem insertSpentBy_eq : insertSpentBy txId height m i inputs = m.insertAll (inputRows txId height i inputs) := by
  induction inputs generalizing m i with
  | nil => rfl
  | cons input inputs ih => exact ih

theorem insertAll_append [DecidableEq α] {m : Map α β} {rows rows' : List (α × β)} :
    m.insertAll (rows ++ rows') = (m.insertAll rows).insertAll rows' :=
  List.foldl_append

theorem eraseAll_append [DecidableEq α] {m : Map α β} {keys keys' : List α} :
    m.eraseAll (keys ++ keys') = (m.eraseAll keys).eraseAll keys' :=
  List.foldl_append

end

theorem applySpentByForBlock_eq (h : HasIds block) :
    applySpentByForBlock m block = .ok (m.insertAll (spentRows block)) := by
  unfold applySpentByForBlock spentRows
  have hids : ∀ tx ∈ block.transactions, ∃ txId, tx.txId = .ok txId := h
  generalize block.transactions = txs at hids ⊢
  induction txs generalizing m with
  | nil => rfl
  | cons tx txs ih =>
    obtain ⟨⟨txId, hid⟩, hrest⟩ := List.forall_mem_cons.mp hids
    rw [List.foldlM_cons, List.flatMap_cons, insertAll_append]
    cases tx.isCoinbase with
    | true => exact ih hrest
    | false =>
      simp only [Bool.false_eq_true, if_false, hid, ← insertSpentBy_eq]
      exact ih hrest

omit [Crypto] in
theorem inputRows_keys : (inputRows txId height i inputs).map Prod.fst =
      (inputs.map TxInput.outPoint).map serializeOutpointKey := by
  induction inputs generalizing i with
  | nil => rfl
  | cons input inputs ih => exact congrArg _ ih

theorem spentRows_keys (h : HasIds block) : (spentRows block).map Prod.fst =
    (block.transactions.flatMap spends).map serializeOutpointKey := by
  rw [spentRows, List.map_flatMap, List.map_flatMap]
  refine List.flatMap_congr fun tx htx => ?_
  obtain ⟨txId, hid⟩ := h tx htx
  rw [spends, hid]
  split
  · rfl
  · exact inputRows_keys

theorem revertSpentByForBlock_eq (h : HasIds block) :
    revertSpentByForBlock m block = m.eraseAll ((spentRows block).map Prod.fst) := by
  rw [spentRows_keys h, revertSpentByForBlock]
  induction block.transactions generalizing m with
  | nil => rfl
  | cons tx txs ih =>
    rw [List.foldl_cons, List.flatMap_cons, List.map_append, eraseAll_append, ih, spends]
    split
    · rfl
    · congr 1
      rw [Map.eraseAll, List.map_map, List.foldl_map]
      rfl

end Rows

/-! ## Distinct keys -/

/-- The rows of a chain have different keys. -/
structure Indexable (chain : List Block) : Prop where
  ids : ∀ block ∈ chain, HasIds block
  txKeys : ((chain.flatMap txRows).map Prod.fst).Nodup
  spentKeys : ((chain.flatMap spentRows).map Prod.fst).Nodup

omit [Crypto] in
theorem chainTxs_perm (chain : List Block) : (chain.flatMap Block.transactions).Perm (chainTxs chain) := by
  induction chain with
  | nil => exact .refl _
  | cons block chain ih => exact List.perm_append_comm.trans (ih.append_right _)

theorem indexable_of_noRepeats (h : NoRepeats (chainTxs chain)) : Indexable chain := by
  have hids : ∀ block ∈ chain, HasIds block := fun block hblock tx htx =>
    h.ids tx (mem_chainTxs.mpr ⟨block, hblock, htx⟩)
  refine ⟨hids, ?_, ?_⟩
  · have hkeys : (chain.flatMap txRows).map Prod.fst =
        (chain.flatMap Block.transactions).filterMap fun tx => tx.txId.toOption := by
      rw [List.map_flatMap, List.filterMap_flatMap]
      refine List.flatMap_congr fun block _ => ?_
      rw [txRows, List.map_filterMap]
      refine List.filterMap_congr fun tx _ => ?_
      cases tx.txId <;> rfl
    rw [hkeys, ((chainTxs_perm chain).filterMap _).nodup_iff]
    refine h.distinct.filterMap _ fun tx tx' hne id hid id' hid' heq => hne ?_
    rw [toOption_eq_some.mp hid, toOption_eq_some.mp hid', heq]
  · have hkeys : (chain.flatMap spentRows).map Prod.fst =
        ((chain.flatMap Block.transactions).flatMap spends).map serializeOutpointKey := by
      rw [List.map_flatMap, List.flatMap_assoc, List.map_flatMap]
      exact List.flatMap_congr fun block hblock => spentRows_keys (hids block hblock)
    rw [hkeys]
    refine List.Nodup.map (fun op op' hop => serializeOutpointKey_inj hop) ?_
    exact ((chainTxs_perm chain).flatMap_right spends).nodup_iff.mpr h.spent

end Exfer.Proof
