import Exfer.Proof.Node.Switch

/-!
# The three commits

The commits of the first block, of a block on the tip and of a reorg as changes of the chain
(`switch_genesis`, `switch_block`, `switch_reorg`). A reorg finds the transactions to take out of
`TX_INDEX_TABLE` through the height index, which lists the old blocks still.
-/

namespace Exfer.Proof

open Lib Impl Impl.Storage Spec UtxoSet

variable [Crypto] {block : Block} {blocks : List Block} {work : Work} {height : UInt64}
  {s : Storage} {mutations : List UtxoMutation}

/-! ## Cumulative work -/

omit [Crypto] in
theorem addBytes_zero (bytes : List UInt8) : addBytes 0 (List.replicate bytes.length 0) bytes = (0, bytes) := by
  induction bytes with
  | nil => rfl
  | cons b bytes ih =>
    rw [List.length_cons, List.replicate_succ, addBytes, ih]
    simp [Nat.div_eq_of_lt b.toNat_lt]

omit [Crypto] in
theorem addWork_noWork (work : Work) : addWork (Vector.replicate 32 0) work = work := by
  have hbytes := addBytes_zero work.toList
  rw [Vector.length_toList] at hbytes
  have hwork := hashOfBytes_append work []
  rw [List.append_nil] at hwork
  rw [addWork, Vector.toList_replicate, hbytes]
  exact hwork

theorem mem_cumulativeWorks (h : block :: below <:+ blocks.reverse ++ base) : block :: below <:+ base ∨
      (block.header.blockId, chainWork (block :: below)) ∈
        Node.cumulativeWorks (chainWork base) blocks := by
  induction blocks generalizing base with
  | nil => exact .inl h
  | cons first blocks ih =>
    rw [List.reverse_cons, List.append_assoc] at h
    rcases ih h with hsuffix | hmem
    · rcases List.suffix_cons_iff.mp hsuffix with heq | hsuffix
      · cases heq
        exact .inr List.mem_cons_self
      · exact .inl hsuffix
    · exact .inr (List.mem_cons_of_mem _ hmem)

theorem cumulativeWorks_keys : (Node.cumulativeWorks work blocks).map Prod.fst =
      blocks.map fun block => block.header.blockId := by
  induction blocks generalizing work with
  | nil => rfl
  | cons block blocks ih => exact congrArg _ ih

/-! ## Heights -/

section Heights

theorem le_height (h : Chained (front ++ base)) (hblock : block ∈ front) :
    base.length ≤ block.header.height.toNat := by
  induction front with
  | nil => cases hblock
  | cons top front ih =>
    cases h with
    | cons h hheight hprev =>
      rcases List.mem_cons.mp hblock with rfl | hblock
      · rw [hheight]
        exact (List.suffix_append front base).length_le
      · exact ih h hblock

theorem exists_height (h : Chained (front ++ base)) (hle : base.length ≤ n)
    (hlt : n < (front ++ base).length) : ∃ block ∈ front, block.header.height.toNat = n := by
  induction front with
  | nil => exact absurd hlt (Nat.not_lt.mpr hle)
  | cons top front ih =>
    cases h with
    | cons h hheight hprev =>
      rcases Nat.lt_succ_iff_lt_or_eq.mp hlt with hlt | rfl
      · obtain ⟨block, hblock, hn⟩ := ih h hlt
        exact ⟨block, List.mem_cons_of_mem _ hblock, hn⟩
      · exact ⟨top, List.mem_cons_self, hheight⟩

omit [Crypto] in
theorem mem_heightRange : height ∈ heightRange (some (start, last)) ↔
    start.toNat ≤ height.toNat ∧ height.toNat ≤ last.toNat := by
  rw [heightRange, List.mem_map]
  constructor
  · rintro ⟨n, hn, rfl⟩
    rw [List.mem_range'_1] at hn
    have hlast : last.toNat < UInt64.size := last.toNat_lt
    rw [UInt64.toNat_ofNat_of_lt' (by omega)]
    omega
  · rintro ⟨hle, hlt⟩
    exact ⟨height.toNat, List.mem_range'_1.mpr ⟨hle, by omega⟩, UInt64.ofNat_toNat⟩

end Heights

/-! ## Rows of several blocks -/

section Folds

variable {blocks : List Block}

theorem foldl_indexTxs (txIndex : Map Hash256 UInt64) :
    blocks.foldl indexTxs txIndex = txIndex.insertAll (blocks.flatMap txRows) := by
  rw [Map.insertAll, List.foldl_flatMap]
  exact congrArg (fun f => blocks.foldl f txIndex) (funext₂ fun m b => indexTxs_eq m)

theorem foldl_revertSpentBy (h : ∀ block ∈ blocks, HasIds block)
    (rows : Map (List UInt8) (List UInt8)) : blocks.foldl revertSpentByForBlock rows =
      rows.eraseAll ((blocks.flatMap spentRows).map Prod.fst) := by
  induction blocks generalizing rows with
  | nil => rfl
  | cons block blocks ih =>
    obtain ⟨hblock, hblocks⟩ := List.forall_mem_cons.mp h
    rw [List.foldl_cons, ih hblocks, revertSpentByForBlock_eq hblock, List.flatMap_cons,
      List.map_append, eraseAll_append]

theorem foldlM_applySpentBy (h : ∀ block ∈ blocks, HasIds block)
    (rows : Map (List UInt8) (List UInt8)) : blocks.foldlM applySpentByForBlock rows =
      .ok (rows.insertAll (blocks.flatMap spentRows)) := by
  induction blocks generalizing rows with
  | nil => rfl
  | cons block blocks ih =>
    obtain ⟨hblock, hblocks⟩ := List.forall_mem_cons.mp h
    rw [List.foldlM_cons, applySpentByForBlock_eq hblock, List.flatMap_cons, insertAll_append]
    exact ih hblocks _

theorem foldl_insert {α : Type} {m : Map Hash256 α} (value : Block → α) :
    blocks.foldl (fun m block => m.insert block.header.blockId (value block)) m =
      m.insertAll (blocks.map fun block => (block.header.blockId, value block)) := by
  rw [Map.insertAll, List.foldl_map]

/-- The transactions of the blocks listed at some heights are taken out. -/
theorem unindexHeights_eq : s.unindexHeights heights = s.txIndex.eraseAll (heights.flatMap fun height =>
      match (s.heightIndex.lookup height).bind fun id => s.blocks.lookup id with
      | some block => (txRows block).map Prod.fst
      | none => []) := by
  rw [Storage.unindexHeights, Map.eraseAll, List.foldl_flatMap]
  refine congrArg (fun f => heights.foldl f s.txIndex) (funext₂ fun txIndex height => ?_)
  cases (s.heightIndex.lookup height).bind fun id => s.blocks.lookup id with
  | none => rfl
  | some block => exact unindexTxs_eq txIndex

end Folds

/-! ## One block -/

section Block

theorem switch_genesis [Network] (h : Storage.empty.commitGenesisAtomic none block work mutations = .ok s')
    (hwork : work = workFromTarget block.header.difficultyTarget) (hids : HasIds block) :
    Switch [] [block] [] [block] [] Storage.empty s' := by
  obtain ⟨utxos, spentBy, -, hspentBy, rfl⟩ := commitGenesisAtomic_ok h
  rw [applySpentByForBlock_eq hids] at hspentBy
  cases hspentBy
  refine ⟨fun _ => Iff.rfl, rfl, rfl, rfl, ⟨[block], [], fun _ => Iff.rfl, fun _ _ h => (nomatch h),
    fun _ h => (nomatch h), rfl⟩, ?_, ⟨[], fun _ => Iff.rfl, ?_⟩, ?_, rfl, rfl⟩
  · intro b below hsuffix
    rcases List.suffix_cons_iff.mp hsuffix with heq | hsuffix
    · cases heq
      have htotal : chainWork [block] = work := (addWork_noWork _).trans hwork.symm
      exact htotal ▸ Finmap.lookup_insert _
    · exact absurd hsuffix.length_le (by simp)
  · rw [List.flatMap_singleton]
    exact indexTxs_eq _
  · rw [List.flatMap_singleton]
    rfl

theorem switch_block (h : s.commitBlockAtomic fault block (chainWork (block :: chain)) spent mutations = .ok s')
    (htables : CanonicalTables s chain) (hids : HasIds block)
    (hnew : ∀ b ∈ chain, b.header.blockId ≠ block.header.blockId) :
    Switch [] [block] chain [block] [(block.header.blockId, spent)] s s' := by
  obtain ⟨spentData, utxos, spentBy, hspent, -, hspentBy, rfl⟩ := commitBlockAtomic_ok h
  rw [applySpentByForBlock_eq hids] at hspentBy
  cases hspentBy
  refine ⟨fun _ => Iff.rfl, rfl, rfl, rfl, ⟨[block], [], fun _ => Iff.rfl, fun _ _ h => (nomatch h),
    fun _ h => (nomatch h), rfl⟩, ?_, ⟨[], fun _ => Iff.rfl, ?_⟩, ?_, ?_, rfl⟩
  · intro b below hsuffix
    change (s.work.insert block.header.blockId (chainWork (block :: chain))).lookup _ = _
    rw [Map.lookup_insert_eq]
    rcases List.suffix_cons_iff.mp hsuffix with heq | hsuffix
    · cases heq
      exact if_pos rfl
    · rw [if_neg (hnew b (hsuffix.subset List.mem_cons_self))]
      exact htables.work b below hsuffix
  · rw [List.flatMap_singleton]
    exact indexTxs_eq _
  · rw [List.flatMap_singleton]
    rfl
  · rw [Storage.insertSpentRows, hspent]
    rfl

end Block

/-! ## A reorg -/

section Reorg

variable {olds rest base added : List Block} {block b : Block} {s : Storage} {tipHeight : UInt64}

/-- The heights above the new tip, up to the old one. -/
def staleHeights (tipHeight newHeight : UInt64) : Option (UInt64 × UInt64) :=
  if tipHeight > newHeight then some (newHeight + 1, tipHeight) else none

omit [Crypto] in
theorem mem_staleHeights : height ∈ heightRange (staleHeights tipHeight newHeight) ↔
      newHeight.toNat < height.toNat ∧ height.toNat ≤ tipHeight.toNat := by
  unfold staleHeights
  split
  · rename_i hlt
    have hlt : newHeight.toNat < tipHeight.toNat := hlt
    have hmax : tipHeight.toNat < 2 ^ 64 := tipHeight.toNat_lt
    rw [mem_heightRange, UInt64.toNat_add, UInt64.toNat_one, Nat.mod_eq_of_lt (by omega),
      Nat.succ_le_iff]
  · rename_i hle
    have hle : ¬ newHeight.toNat < tipHeight.toNat := hle
    simp only [heightRange, List.not_mem_nil, false_iff]
    omega

/-- An old block stands at a height that is erased or reused, and no other block does. -/
theorem old_iff_height (hold : Chained (olds ++ base)) (hnew : Chained (block :: rest ++ base))
    (htip : tipHeight.toNat + 1 = (olds ++ base).length) (hb : b ∈ olds ++ base) : b ∈ olds ↔
      b.header.height ∈ heightRange (staleHeights tipHeight block.header.height) ∨
        ∃ new ∈ block :: rest, new.header.height = b.header.height := by
  have hlast : block.header.height.toNat = (rest ++ base).length := by
    cases hnew with
    | cons _ hheight _ => exact hheight
  rw [mem_staleHeights]
  constructor
  · intro hmem
    by_cases hlt : block.header.height.toNat < b.header.height.toNat
    · exact .inl ⟨hlt, by have := height_lt_length hold b hb; omega⟩
    · obtain ⟨new, hmem', hheight⟩ := exists_height hnew (le_height hold hmem)
        (by rw [List.cons_append, List.length_cons]; omega)
      exact .inr ⟨new, hmem', UInt64.toNat.inj hheight⟩
  · intro hheight
    refine (List.mem_append.mp hb).resolve_right fun hbase => ?_
    have hlt : b.header.height.toNat < base.length :=
      height_lt_length (chained_of_suffix hold (List.suffix_append ..)) b hbase
    rcases hheight with ⟨hstale, -⟩ | ⟨new, hmem, heq⟩
    · rw [hlast, List.length_append] at hstale
      omega
    · have hle := le_height hnew hmem
      rw [heq] at hle
      omega

section

variable (hadded : added.reverse = block :: rest) (htables : CanonicalTables s (olds ++ base))
include hadded htables

/-- The rows that the commit leaves in `WORK_TABLE`, where that of the new tip is written twice. -/
theorem reorg_work (hnodup : ((added.reverse ++ base).map fun b => b.header.blockId).Nodup)
    (hsuffix : b :: below <:+ added.reverse ++ base) : (s.work.insertAll ((block.header.blockId, work) ::
      Node.cumulativeWorks (chainWork base) added)).lookup b.header.blockId =
        some (chainWork (b :: below)) := by
  rw [List.map_append, List.nodup_append] at hnodup
  rcases mem_cumulativeWorks hsuffix with hbase | hmem
  · have hb : b ∈ base := hbase.subset List.mem_cons_self
    have hnot : b.header.blockId ∉ added.reverse.map fun b => b.header.blockId :=
      fun hmem => hnodup.2.2 _ hmem _ (List.mem_map_of_mem hb) rfl
    rw [Map.lookup_insertAll_of_notMem]
    · exact htables.work b below (hbase.trans (List.suffix_append ..))
    · rw [List.map_cons, cumulativeWorks_keys, List.mem_cons, not_or]
      constructor
      · intro hid
        rw [hid, hadded] at hnot
        exact hnot List.mem_cons_self
      · rwa [List.map_reverse, List.mem_reverse] at hnot
  · refine Map.lookup_insertAll_of_mem (m := s.work.insert block.header.blockId work) ?_ hmem
    rw [cumulativeWorks_keys, ← List.nodup_reverse, ← List.map_reverse]
    exact hnodup.1

/-- The heights that the commit goes through are those of the old blocks. -/
theorem reorg_unindex {blocks : Map Hash256 Block} (htip : tipHeight.toNat + 1 = (olds ++ base).length)
    (hchained : Chained (added.reverse ++ base)) (hbody : ∀ b ∈ olds, blocks.lookup b.header.blockId = some b) :
    ∃ keys, (∀ key, key ∈ keys ↔ key ∈ (olds.flatMap txRows).map Prod.fst) ∧
      { s with blocks }.unindexHeights (heightRange (staleHeights tipHeight block.header.height) ++
        (added.map fun b : Block => (b.header.height, b.header.blockId)).map Prod.fst) =
          s.txIndex.eraseAll keys := by
  refine ⟨_, fun key => ?_, unindexHeights_eq⟩
  have hheights : ∀ {b : Block}, b ∈ olds ++ base → (b ∈ olds ↔ b.header.height ∈
      heightRange (staleHeights tipHeight block.header.height) ++
        (added.map fun b : Block => (b.header.height, b.header.blockId)).map Prod.fst) := by
    intro b hb
    rw [old_iff_height htables.chained (hadded ▸ hchained) htip hb, ← hadded, List.mem_append,
      List.map_map, List.mem_map]
    simp only [List.mem_reverse, Function.comp_apply]
  rw [List.map_flatMap, List.mem_flatMap, List.mem_flatMap]
  constructor
  · rintro ⟨height, hheight, hkey⟩
    split at hkey
    · rename_i b hread
      obtain ⟨id, hid, hb⟩ := Option.bind_eq_some_iff.mp hread
      obtain ⟨b', hb', rfl, rfl⟩ := (htables.index _ _).mp hid
      have hold := (hheights hb').mpr hheight
      rw [hbody b' hold] at hb
      cases hb
      exact ⟨b, hold, hkey⟩
    · cases hkey
  · rintro ⟨b, hb, hkey⟩
    have hmem : b ∈ olds ++ base := List.mem_append_left _ hb
    refine ⟨b.header.height, (hheights hmem).mp hb, ?_⟩
    rw [(htables.index _ _).mpr ⟨b, hmem, rfl, rfl⟩, Option.bind_some, hbody b hb]
    exact hkey

end

theorem switch_reorg {spent : List (Hash256 × List (OutPoint × UtxoEntry))}
    {mutations : List (Hash256 × List UtxoMutation)}
    (h : s.commitReorgAtomic fault block work olds spent mutations (added.map fun b =>
      (b.header.height, b.header.blockId)) added (Node.cumulativeWorks (chainWork base) added)
      (staleHeights tipHeight block.header.height) block.header.blockId = .ok s')
    (hadded : added.reverse = block :: rest) (htables : CanonicalTables s (olds ++ base))
    (htip : tipHeight.toNat + 1 = (olds ++ base).length) (hchained : Chained (added.reverse ++ base))
    (hnodup : ((added.reverse ++ base).map fun b => b.header.blockId).Nodup)
    (hids : ∀ b ∈ olds, HasIds b) (hids' : ∀ b ∈ added.reverse, HasIds b)
    (hsame : ∀ new ∈ added.reverse, ∀ old ∈ olds, new.header.blockId = old.header.blockId → new =
      old) : Switch olds added.reverse base (block :: added) spent s s' := by
  have hmem : ∀ b, b ∈ block :: added ↔ b ∈ added.reverse := by
    intro b
    rw [List.mem_cons, List.mem_reverse, or_iff_right_of_imp]
    rintro rfl
    rw [← List.mem_reverse, hadded]
    exact List.mem_cons_self
  have hbody : ∀ b ∈ olds, (s.blocks.insertAll ((block :: added).map fun b =>
      (b.header.blockId, b))).lookup b.header.blockId = some b := fun b hb =>
    lookup_insertBlocks (htables.body b (List.mem_append_left _ hb)) fun new hnew =>
      hsame new ((hmem new).mp hnew) b hb
  obtain ⟨keys, hkeys, hunindex⟩ := reorg_unindex hadded htables htip hchained hbody
  obtain ⟨spentUtxos, undone, utxos, spentBy, hspent, -, -, hspentBy, rfl⟩ := commitReorgAtomic_ok h
  rw [foldl_revertSpentBy hids, foldlM_applySpentBy fun b hb => hids' b ((hmem b).mp hb)] at hspentBy
  cases hspentBy
  refine ⟨hmem, by rw [hadded]; rfl, foldl_insert fun b => b, foldl_insert fun b => b.header,
    ⟨added, heightRange (staleHeights tipHeight block.header.height),
      fun _ => List.mem_reverse.symm, ?_, ?_, rfl⟩, ?_, ⟨keys, hkeys, ?_⟩, rfl, hspent, rfl⟩
  · intro b hb hstale
    have hlt := height_lt_length hchained b hb
    rw [hadded] at hchained hlt
    cases hchained with
    | cons _ hheight _ =>
      rw [List.cons_append, List.length_cons, Nat.lt_succ_iff] at hlt
      exact absurd (mem_staleHeights.mp hstale).1 (Nat.not_lt.mpr (hheight ▸ hlt))
  · intro b hb
    rw [hadded] at hchained ⊢
    exact (old_iff_height htables.chained hchained htip (List.mem_append_left _ hb)).mp hb
  · exact fun b below hsuffix => reorg_work hadded htables hnodup hsuffix
  · change (block :: added).foldl indexTxs _ = _
    rw [foldl_indexTxs, foldl_insert (fun b => b), hunindex]

end Reorg

/-! ## Commits that succeed -/

omit [Crypto] in
theorem exists_applyUtxoMutations (rows : Map (List UInt8) (List UInt8))
    (hser : ∀ op entry, .insert op entry ∈ mutations → ∃ bytes, entry.output.serialize = .ok bytes)
      : ∃ rows', applyUtxoMutations rows mutations = .ok rows' := by
  induction mutations generalizing rows with
  | nil => exact ⟨rows, rfl⟩
  | cons mutation mutations ih =>
    have hrest := fun op entry hmem => hser op entry (List.mem_cons_of_mem _ hmem)
    cases mutation with
    | insert op entry =>
      obtain ⟨bytes, hbytes⟩ := hser op entry List.mem_cons_self
      obtain ⟨value, hvalue⟩ : ∃ value, serializeUtxoEntry entry = .ok value :=
        ⟨_, bind_eq_ok.mpr ⟨bytes, hbytes, rfl⟩⟩
      obtain ⟨rows', hrows'⟩ := ih _ hrest
      exact ⟨rows', bind_eq_ok.mpr ⟨value, orSerialization_eq_ok.mpr hvalue, hrows'⟩⟩
    | remove op entry => exact ih _ hrest

theorem exists_commitBlock (hser : ∃ bytes, block.serialize = .ok bytes)
    (hreads : ReadsBack (UtxoMutation.collectSpentUtxos mutations)) (hids : HasIds block)
    (hmutates : Mutates block.transactions m mutations m') :
    ∃ s', s.commitBlockAtomic none block work (UtxoMutation.collectSpentUtxos mutations) mutations =
      .ok s' := by
  obtain ⟨bytes, hbytes⟩ := hser
  obtain ⟨spentData, hspent, -⟩ := hreads
  obtain ⟨rows, hrows⟩ := exists_applyUtxoMutations s.utxos hmutates.serializes
  exact ⟨_, bind_eq_ok.mpr ⟨bytes, orSerialization_eq_ok.mpr hbytes,
    bind_eq_ok.mpr ⟨spentData, orSerialization_eq_ok.mpr hspent,
      bind_eq_ok.mpr ⟨rows, hrows, bind_eq_ok.mpr ⟨_, applySpentByForBlock_eq hids, rfl⟩⟩⟩⟩⟩

end Exfer.Proof
