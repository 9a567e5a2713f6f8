import Exfer.Proof.Node.Indexes
import Exfer.Proof.Node.Reorg

/-!
# Commits

Every commit takes some blocks off the canonical chain and puts others on (`Switch`): none and the
first block, none and one block, or the two branches of a reorg. It keeps the tables and the indexes
those of the chain (`Switch.tables`, `Switch.indexes`) and what is in memory that of the chain
(`Switch.state`).
-/

namespace Exfer.Proof

open Lib Impl Spec UtxoSet

variable [Crypto]

/-- What a commit writes that takes the blocks `olds` off the chain and puts `news` on, both listed
latest first; `stored` are the blocks it writes, and `spent` the entries they spent. -/
structure Switch (olds news base stored : List Block)
    (spent : List (Hash256 × List (OutPoint × UtxoEntry))) (s s' : Storage) : Prop where
  mem : ∀ block, block ∈ stored ↔ block ∈ news
  tip : s'.tip = (news ++ base).head?.map fun block => block.header.blockId
  blocks : s'.blocks = s.blocks.insertAll (stored.map fun block => (block.header.blockId, block))
  headers : s'.headers =
    s.headers.insertAll (stored.map fun block => (block.header.blockId, block.header))
  /-- The heights of the old blocks are reused or erased. -/
  heightIndex : ∃ (listed : List Block) (stale : List UInt64),
    (∀ block, block ∈ listed ↔ block ∈ news) ∧
    (∀ block ∈ news ++ base, block.header.height ∉ stale) ∧
    (∀ block ∈ olds, block.header.height ∈ stale ∨
      ∃ new ∈ news, new.header.height = block.header.height) ∧
    s'.heightIndex = (s.heightIndex.insertAll
      (listed.map fun block => (block.header.height, block.header.blockId))).eraseAll stale
  work : ∀ block below, block :: below <:+ news ++ base →
    s'.work.lookup block.header.blockId = some (chainWork (block :: below))
  txIndex : ∃ keys, (∀ key, key ∈ keys ↔ key ∈ (olds.flatMap txRows).map Prod.fst) ∧
    s'.txIndex = (s.txIndex.eraseAll keys).insertAll (stored.flatMap txRows)
  spentBy : s'.spentBy = (s.spentBy.eraseAll ((olds.flatMap spentRows).map Prod.fst)).insertAll
    (stored.flatMap spentRows)
  spentUtxos : Storage.insertSpentRows s.spentUtxos spent = .ok s'.spentUtxos
  retained : s'.retainedForkHeaders = s.retainedForkHeaders

section Switch

variable {olds news base stored : List Block} {spent : List (Hash256 × List (OutPoint × UtxoEntry))}
  {s s' : Storage} {block : Block} {id : Hash256}

omit [Crypto] in
theorem injOn_of_nodup {α : Type*} {key : Block → α} {blocks : List Block}
    (h : ((news ++ base).map key).Nodup) (hmem : ∀ block, block ∈ blocks ↔ block ∈ news) :
    ∀ b ∈ blocks, ∀ c ∈ blocks, key b = key c → b = c := fun b hb c hc heq =>
  List.inj_on_of_nodup_map h (List.mem_append_left _ ((hmem b).mp hb))
    (List.mem_append_left _ ((hmem c).mp hc)) heq

section

variable (h : Switch olds news base stored spent s s')
include h

/-- A table that gets a row for every new block has the rows of the whole chain. -/
theorem Switch.lookup (hnodup : ((news ++ base).map fun block => block.header.blockId).Nodup) {α : Type}
    {m : Map Hash256 α} (value : Block → α)
    (hbase : ∀ block ∈ base, m.lookup block.header.blockId = some (value block)) :
    ∀ block ∈ news ++ base, (m.insertAll (stored.map fun b => (b.header.blockId, value b))).lookup
      block.header.blockId = some (value block) := by
  intro block hblock
  rcases List.mem_append.mp hblock with hnew | hold
  · exact Map.lookup_insertAll_of_isFunctional (Map.isFunctional_map (injOn_of_nodup hnodup h.mem))
      (List.mem_map_of_mem (f := fun b => (b.header.blockId, value b)) ((h.mem block).mpr hnew))
  · rw [Map.lookup_insertAll_of_notMem, hbase block hold]
    intro hmem
    obtain ⟨row, hrow, hid⟩ := List.mem_map.mp hmem
    obtain ⟨new, hnew, rfl⟩ := List.mem_map.mp hrow
    rw [List.map_append, List.nodup_append] at hnodup
    exact hnodup.2.2 _ (List.mem_map_of_mem ((h.mem new).mp hnew)) _ (List.mem_map_of_mem hold) hid

theorem Switch.tables (htables : CanonicalTables s (olds ++ base)) (hchained : Chained (news ++ base))
    (hnodup : ((news ++ base).map fun block => block.header.blockId).Nodup) :
    CanonicalTables s' (news ++ base) where
  chained := hchained
  tip := h.tip
  body := by
    rw [h.blocks]
    exact h.lookup hnodup (fun block => block) fun block hblock =>
      htables.body block (List.mem_append_right _ hblock)
  header := by
    rw [h.headers]
    exact h.lookup hnodup (fun block => block.header) fun block hblock =>
      htables.header block (List.mem_append_right _ hblock)
  work := h.work
  index := by
    obtain ⟨listed, stale, hlisted, hstale, hold, hindex⟩ := h.heightIndex
    have hheights := heights_nodup hchained
    have hbase : ∀ block ∈ base, ∀ new ∈ news, new.header.height ≠ block.header.height := by
      rw [List.map_append, List.nodup_append] at hheights
      exact fun block hblock new hnew => hheights.2.2 _ (List.mem_map_of_mem hnew) _
        (List.mem_map_of_mem hblock)
    have htable : s.heightIndex.IsTable fun height id =>
        ∃ block ∈ olds ++ base, block.header.height = height ∧ block.header.blockId = id :=
      htables.index
    rw [hindex]
    refine (htable.insertAll (Map.isFunctional_map (injOn_of_nodup hheights hlisted))
      fun _ _ => Iff.rfl).eraseAll fun height id => ?_
    have hrow : ∀ {height : UInt64}, height ∈ (listed.map fun block =>
        (block.header.height, block.header.blockId)).map Prod.fst ↔
          ∃ new ∈ news, new.header.height = height := by
      intro height
      simp only [List.map_map, List.mem_map, Function.comp_apply, hlisted]
    rw [hrow]
    simp only [List.mem_map, hlisted, Prod.mk.injEq]
    constructor
    · rintro ⟨block, hblock, rfl, rfl⟩
      refine ⟨?_, hstale block hblock⟩
      rcases List.mem_append.mp hblock with hnew | hblock
      · exact .inl ⟨block, hnew, rfl, rfl⟩
      · exact .inr ⟨⟨block, List.mem_append_right _ hblock, rfl, rfl⟩,
          fun ⟨new, hnew, heq⟩ => hbase block hblock new hnew heq⟩
    · rintro ⟨⟨block, hblock, hrow⟩ | ⟨⟨block, hblock, rfl, rfl⟩, hnot⟩, hkept⟩
      · exact ⟨block, List.mem_append_left _ hblock, hrow⟩
      · rcases List.mem_append.mp hblock with hblock | hblock
        · rcases hold block hblock with hstale | hnew
          · exact absurd hstale hkept
          · exact absurd hnew hnot
        · exact ⟨block, List.mem_append_right _ hblock, rfl, rfl⟩

theorem Switch.indexes (hindexes : CanonicalIndexes s (olds ++ base)) (hold : Indexable (olds ++ base))
    (hnew : Indexable (news ++ base)) : CanonicalIndexes s' (news ++ base) := by
  obtain ⟨htxs, hspent⟩ := canonicalIndexes_iff.mp hindexes
  have hrows : ∀ {α β : Type} {rows : Block → List (α × β)} {row : α × β},
      row ∈ (news ++ base).flatMap rows ↔ row ∈ base.flatMap rows ∨ row ∈ stored.flatMap rows := by
    intro α β rows row
    simp only [List.flatMap_append, List.mem_append, List.mem_flatMap, h.mem, or_comm]
  refine canonicalIndexes_iff.mpr ⟨?_, ?_⟩
  · obtain ⟨keys, hkeys, heq⟩ := h.txIndex
    have hnodup := hold.txKeys
    rw [List.flatMap_append] at htxs hnodup
    rw [heq]
    exact (htxs.eraseRows hnodup hkeys).extend (Map.isFunctional_of_nodup hnew.txKeys)
      fun _ _ => hrows
  · have hnodup := hold.spentKeys
    rw [List.flatMap_append] at hspent hnodup
    rw [h.spentBy]
    exact (hspent.eraseRows hnodup fun _ => Iff.rfl).extend (Map.isFunctional_of_nodup hnew.spentKeys)
      fun _ _ => hrows

theorem Switch.storedFrom (hs : StoredFrom known s)
    (hnews : ∀ block ∈ news, block ∈ known) : StoredFrom known s' := by
  -- a row of a table that gets one for every block written is an old or a new one
  have hrow : ∀ {α : Type} {m : Map Hash256 α} (value : Block → α) {id : Hash256} {v : α},
      (m.insertAll (stored.map fun b => (b.header.blockId, value b))).lookup id = some v →
        m.lookup id = some v ∨ ∃ block ∈ known, block.header.blockId = id ∧ value block = v := by
    intro α m value id v hlookup
    rcases Map.lookup_insertAll_cases m
      (stored.map fun b => (b.header.blockId, value b)) id with heq | ⟨v', hnew, heq⟩
    · exact .inl (heq.symm.trans hlookup)
    · obtain ⟨block, hblock, hpair⟩ := List.mem_map.mp hnew
      cases hpair
      exact .inr ⟨block, hnews block ((h.mem block).mp hblock), rfl, Option.some.inj (heq.symm.trans hlookup)⟩
  constructor
  · intro id block hlookup
    rw [h.blocks] at hlookup
    rcases hrow (fun block => block) hlookup with hold | ⟨_, hblock, hid, rfl⟩
    · exact hs.blocks id block hold
    · exact ⟨hblock, hid⟩
  · intro id header hlookup
    rw [h.headers] at hlookup
    rcases hrow (fun block => block.header) hlookup with hold | ⟨block, hblock, hid, rfl⟩
    · exact hs.headers id header hold
    · exact ⟨block, hblock, rfl, hid⟩
  · rw [h.retained]
    exact hs.retained

end

/-- A stored block stays stored, unless a block written under its id is another one. -/
theorem lookup_insertBlocks {blocks : Map Hash256 Block} (hbody : blocks.lookup block.header.blockId = some block)
    (hsame : ∀ new ∈ stored, new.header.blockId = block.header.blockId → new = block) :
    (blocks.insertAll (stored.map fun b => (b.header.blockId, b))).lookup block.header.blockId =
      some block := by
  rcases Map.lookup_insertAll_cases blocks
    (stored.map fun b => (b.header.blockId, b)) block.header.blockId with heq | ⟨v, hnew, heq⟩
  · exact heq.trans hbody
  · obtain ⟨new, hmem, hpair⟩ := List.mem_map.mp hnew
    obtain ⟨hid, rfl⟩ := Prod.mk.inj hpair
    rw [heq, hsame new hmem hid]

theorem Switch.hasBody (h : Switch olds news base stored spent s s') (hbody : HasBody s block)
    (hsame : ∀ new ∈ news, new.header.blockId = block.header.blockId → new = block) : HasBody s' block := by
  rw [HasBody, h.blocks]
  exact lookup_insertBlocks hbody fun new hnew => hsame new ((h.mem new).mp hnew)

/-! ## What the blocks spent -/

omit [Crypto] in
theorem insertSpentRows_of_notMem (h : Storage.insertSpentRows rows spent = .ok rows')
    (hid : id ∉ spent.map Prod.fst) : rows'.lookup id = rows.lookup id := by
  induction spent generalizing rows with
  | nil =>
    cases h
    rfl
  | cons x spent ih =>
    rw [List.map_cons, List.mem_cons, not_or] at hid
    obtain ⟨data, -, h⟩ := bind_eq_ok.mp h
    rw [ih h hid.2, Map.lookup_insert_eq, if_neg hid.1]

omit [Crypto] in
theorem insertSpentRows_of_mem {entries : List (OutPoint × UtxoEntry)}
    (hnodup : (spent.map Prod.fst).Nodup) (h : Storage.insertSpentRows rows spent = .ok rows')
    (hmem : (id, entries) ∈ spent) :
    ∃ bytes, serializeSpentUtxos entries = .ok bytes ∧ rows'.lookup id = some bytes := by
  induction spent generalizing rows with
  | nil => cases hmem
  | cons x spent ih =>
    rw [List.map_cons, List.nodup_cons] at hnodup
    obtain ⟨data, hdata, h⟩ := bind_eq_ok.mp h
    rcases List.mem_cons.mp hmem with rfl | hmem
    · refine ⟨data, orSerialization_eq_ok.mp hdata, ?_⟩
      rw [insertSpentRows_of_notMem h hnodup.1, Map.lookup_insert_eq, if_pos rfl]
    · exact ih hnodup.2 h hmem

/-- After the commit every block of the chain has its row. -/
theorem Switch.state [Network] (h : Switch olds news base stored (Node.spentOf applied) s s')
    (hnodup : ((newChain applied base).map fun block => block.header.blockId).Nodup)
    (hstate : ChainState (appliedRow s applied) (newChain applied base) m) :
    ChainState (undoRow s') (newChain applied base) m := by
  have hkeys : ((Node.spentOf applied).map Prod.fst).Nodup := by
    rw [newChain, List.map_append, List.map_reverse, List.map_map] at hnodup
    rw [Node.spentOf, List.map_map]
    exact List.nodup_reverse.mp (List.nodup_append.mp hnodup).1
  refine hstate.mono fun block _ entries hreads hrow => ?_
  cases hlookup : (Node.spentOf applied).lookup block.header.blockId with
  | none =>
    rw [undoRow, insertSpentRows_of_notMem h.spentUtxos]
    · exact hrow.1 hlookup
    · intro hmem
      obtain ⟨x, hx, hid⟩ := List.mem_map.mp hmem
      obtain ⟨y, hy, rfl⟩ := List.mem_map.mp hx
      exact spentOf_lookup_eq_none.mp hlookup y hy hid
  | some entries' =>
    obtain rfl := hrow.2 entries' hlookup
    obtain ⟨xs, ys, heq, -⟩ := List.lookup_eq_some_iff.mp hlookup
    obtain ⟨bytes, hser, hbytes⟩ := insertSpentRows_of_mem hkeys h.spentUtxos
      (heq ▸ List.mem_append_right xs List.mem_cons_self)
    obtain ⟨bytes', hser', hread⟩ := hreads
    cases hser.symm.trans hser'
    rw [undoRow, hbytes]
    exact hread

end Switch

end Exfer.Proof
