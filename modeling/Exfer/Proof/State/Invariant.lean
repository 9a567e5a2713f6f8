import Exfer.Impl.State

/-!
# The representation invariant of the UTXO set

`UtxoSet.Inv` relates the three parts of a UTXO set: the script index is the map read
the other way round, and the Merkle tree holds exactly one leaf for each live outpoint.
Every operation, also one that fails half way, is a sequence of single insertions and
removals (`Steps`), and each of those keeps the invariant as long as the leaf keys of
the outpoints in play do not collide (`Steps.inv`).

The invariant determines the index and the state root from the map (`Inv.eq_of_utxos`),
so that the layers above only follow the map.
-/

namespace Exfer.Proof

open Lib Impl Spec

variable [Crypto]

namespace UtxoSet

open Impl.UtxoSet

variable {s s' : UtxoSet} {op : OutPoint} {D D' : Set OutPoint} {entry : UtxoEntry}
  {prev : List (OutPoint × UtxoEntry)}

/-- The live outpoints that carry a script. -/
def liveWith (s : UtxoSet) (script : List UInt8) : Finset OutPoint :=
  s.utxos.keys.filter fun op => (s.utxos.lookup op).any fun e => e.output.script = script

theorem mem_liveWith : op ∈ liveWith s script ↔ ∃ e, s.utxos.lookup op = some e ∧ e.output.script = script := by
  rw [liveWith, Finset.mem_filter, Map.mem_keys_iff]
  cases s.utxos.lookup op <;> simp

/-- The script index maps each script to the non-empty set of live outpoints that carry it. -/
def IndexInv (s : UtxoSet) : Prop :=
  ∀ script, s.byScript.lookup script =
    if liveWith s script = ∅ then none else some (liveWith s script)

/-- The map `m` has exactly the leaves of the live outpoints. -/
def LeavesOf (s : UtxoSet) (m : LeafMap) : Prop :=
  ∀ key value, m.lookup key = some value ↔ ∃ op entry bytes, s.utxos.lookup op = some entry ∧
    entry.output.serialize = .ok bytes ∧ key = leafKey op ∧
    value = leafValue bytes entry.height entry.isCoinbase

/-- The invariant of a UTXO set whose outpoints all come from `D`. -/
structure Inv (D : Set OutPoint) (s : UtxoSet) : Prop where
  live : ∀ op ∈ s.utxos, op ∈ D
  index : IndexInv s
  serializes : ∀ op entry, s.utxos.lookup op = some entry → ∃ bytes, entry.output.serialize = .ok bytes
  tree : ∃ m, s.smt.Maps m ∧ LeavesOf s m

theorem Inv.mono (h : Inv D s) (hD : D ⊆ D') : Inv D' s :=
  ⟨fun op hop => hD (h.live op hop), h.index, h.serializes, h.tree⟩

theorem inv_new (D : Set OutPoint) : Inv D UtxoSet.new := by
  refine ⟨?_, ?_, ?_, ∅, StateTree.maps_new, ?_⟩
  · intro op h
    exact absurd h Finmap.notMem_empty
  · intro script
    rfl
  · intro op entry h
    simp [UtxoSet.new] at h
  · intro key value
    simp [UtxoSet.new]

/-! ## Single insertions and removals -/

theorem insert_spec (s : UtxoSet) (op : OutPoint) (entry : UtxoEntry) : (∃ e, s.insert op entry = (s, .error e)) ∨
      (s.utxos.lookup op = none ∧ ∃ bytes, entry.output.serialize = .ok bytes ∧
        s.insert op entry = ({
          utxos := s.utxos.insert op entry
          smt := s.smt.insert (leafKey op) (leafValue bytes entry.height entry.isCoinbase)
          byScript := s.byScript.insert entry.output.script
            (Insert.insert op ((s.byScript.lookup entry.output.script).getD ∅)) }, .ok ())) := by
  unfold UtxoSet.insert contains
  split
  · exact .inl ⟨_, rfl⟩
  rename_i h
  split
  · exact .inl ⟨_, rfl⟩
  · rename_i bytes hb
    exact .inr ⟨by simpa using h, bytes, hb, rfl⟩

theorem liveWith_insert (hnew : s.utxos.lookup op = none) (script : List UInt8) :
    liveWith { utxos := s.utxos.insert op entry, smt := t, byScript := ix } script =
      if entry.output.script = script then Insert.insert op (liveWith s script)
      else liveWith s script := by
  ext op'
  by_cases h : op' = op
  · subst h
    split <;> simp_all [mem_liveWith]
  · split <;> simp [mem_liveWith, h]

theorem Inv.insert (h : Inv D s) (hinj : Set.InjOn leafKey D) (hop : op ∈ D) (entry : UtxoEntry) :
    Inv D (s.insert op entry).1 := by
  obtain ⟨e, he⟩ | ⟨hnew, bytes, hb, heq⟩ := insert_spec s op entry
  · rw [he]
    exact h
  rw [heq]
  refine ⟨?_, ?_, ?_, ?_⟩
  · intro op' h'
    rcases Finmap.mem_insert.mp h' with rfl | h'
    · exact hop
    · exact h.live op' h'
  · intro script
    rw [liveWith_insert hnew, Map.lookup_insert_eq]
    by_cases hs : script = entry.output.script
    · subst hs
      have hix := h.index entry.output.script
      rw [if_pos rfl, if_pos rfl, hix, if_neg (Finset.insert_ne_empty _ _)]
      split <;> simp_all
    · rw [if_neg hs, if_neg (Ne.symm hs), h.index]
  · intro op' entry' h'
    rw [Map.lookup_insert_eq] at h'
    split at h'
    · cases h'
      exact ⟨bytes, hb⟩
    · exact h.serializes op' entry' h'
  · obtain ⟨m, hm, hleaves⟩ := h.tree
    refine ⟨_, hm.insert _ _, fun key value => ?_⟩
    simp only [Map.lookup_insert_eq]
    by_cases hk : key = leafKey op
    · subst hk
      rw [if_pos rfl]
      constructor
      · intro hv
        exact ⟨op, entry, bytes, by simp, hb, rfl, (Option.some.inj hv).symm⟩
      · rintro ⟨op', entry', bytes', hl, hb', hkey, rfl⟩
        obtain rfl | hne := eq_or_ne op' op
        · rw [if_pos rfl] at hl
          cases hl
          rw [hb] at hb'
          cases hb'
          rfl
        · rw [if_neg hne] at hl
          -- another live outpoint with the same leaf key would collide
          exact absurd (hinj hop (h.live op' (Finmap.mem_of_lookup_eq_some hl)) hkey) (Ne.symm hne)
    · rw [if_neg hk, hleaves]
      constructor
      · rintro ⟨op', entry', bytes', hl, hrest⟩
        have hne : op' ≠ op := by
          rintro rfl
          rw [hnew] at hl
          cases hl
        exact ⟨op', entry', bytes', by rwa [if_neg hne], hrest⟩
      · rintro ⟨op', entry', bytes', hl, hb', rfl, hv⟩
        have hne : op' ≠ op := by
          rintro rfl
          exact hk rfl
        exact ⟨op', entry', bytes', by rwa [if_neg hne] at hl, hb', rfl, hv⟩

theorem remove_none (h : s.utxos.lookup op = none) : s.remove op = (s, none) := by
  simp [UtxoSet.remove, h]

theorem remove_utxos (s : UtxoSet) (op : OutPoint) : (s.remove op).1.utxos = s.utxos.erase op := by
  unfold UtxoSet.remove
  split
  · rename_i h
    exact (Map.erase_eq_self h).symm
  · rfl

theorem remove_snd (s : UtxoSet) (op : OutPoint) : (s.remove op).2 = s.utxos.lookup op := by
  unfold UtxoSet.remove
  split <;> simp_all

theorem liveWith_remove (h : s'.utxos = s.utxos.erase op) (script : List UInt8) :
    liveWith s' script = (liveWith s script).erase op := by
  ext op'
  simp only [Finset.mem_erase, mem_liveWith, h, Map.lookup_erase_eq]
  by_cases hop : op' = op <;> simp [hop]

theorem Inv.remove (h : Inv D s) (hinj : Set.InjOn leafKey D) (op : OutPoint) : Inv D (s.remove op).1 := by
  have hutxos := remove_utxos s op
  rcases hl : s.utxos.lookup op with _ | entry
  · rw [remove_none hl]
    exact h
  have hop : op ∈ D := h.live op (Finmap.mem_of_lookup_eq_some hl)
  refine ⟨?_, ?_, ?_, ?_⟩
  · intro op' h'
    rw [hutxos] at h'
    exact h.live op' (Finmap.mem_erase.mp h').2
  · intro script
    rw [liveWith_remove hutxos]
    have hix := h.index entry.output.script
    have hmem : op ∈ liveWith s entry.output.script := mem_liveWith.mpr ⟨entry, hl, rfl⟩
    rw [if_neg (Finset.ne_empty_of_mem hmem)] at hix
    simp only [UtxoSet.remove, hl, hix]
    by_cases hs : script = entry.output.script
    · subst hs
      split
      · simp
      · simp
    · have hnot : op ∉ liveWith s script := by
        rw [mem_liveWith]
        rintro ⟨e, he, rfl⟩
        rw [hl] at he
        cases he
        exact hs rfl
      rw [Finset.erase_eq_of_notMem hnot, ← h.index script]
      split
      · rw [Map.lookup_erase_eq, if_neg hs]
      · rw [Map.lookup_insert_eq, if_neg hs]
  · intro op' entry' h'
    rw [hutxos, Map.lookup_erase_eq] at h'
    split at h'
    · cases h'
    · exact h.serializes op' entry' h'
  · obtain ⟨m, hm, hleaves⟩ := h.tree
    refine ⟨m.erase (leafKey op), ?_, fun key value => ?_⟩
    · simpa only [UtxoSet.remove, hl] using hm.remove (leafKey op)
    · rw [Map.lookup_erase_eq, hutxos]
      simp only [Map.lookup_erase_eq]
      by_cases hk : key = leafKey op
      · subst hk
        refine ⟨fun h' => by simp at h', ?_⟩
        rintro ⟨op', entry', bytes', hl', -, hkey, -⟩
        split at hl'
        · cases hl'
        · rename_i hne
          exact absurd (hinj hop (h.live op' (Finmap.mem_of_lookup_eq_some hl')) hkey) (Ne.symm hne)
      · rw [if_neg hk, hleaves]
        constructor
        · rintro ⟨op', entry', bytes', hl', hb', rfl, hv⟩
          have hne : op' ≠ op := by
            rintro rfl
            exact hk rfl
          exact ⟨op', entry', bytes', by rwa [if_neg hne], hb', rfl, hv⟩
        · rintro ⟨op', entry', bytes', hl', hrest⟩
          split at hl'
          · cases hl'
          · exact ⟨op', entry', bytes', hl', hrest⟩

/-! ## Operations as sequences of steps -/

/-- `s'` comes from `s` by insertions and removals of outpoints from `D`. -/
inductive Steps (D : Set OutPoint) (s : UtxoSet) : UtxoSet → Prop where
  | refl : Steps D s s
  | insert {s' : UtxoSet} {op : OutPoint} (h : Steps D s s') (hop : op ∈ D) (entry : UtxoEntry) :
      Steps D s (s'.insert op entry).1
  | remove {s' : UtxoSet} (h : Steps D s s') (op : OutPoint) : Steps D s (s'.remove op).1

theorem Steps.trans (h : Steps D s₁ s₂) (h' : Steps D s₂ s₃) : Steps D s₁ s₃ := by
  induction h' with
  | refl => exact h
  | insert _ hop entry ih => exact ih.insert hop entry
  | remove _ op ih => exact ih.remove op

theorem Steps.inv (h : Steps D s s') (hinj : Set.InjOn leafKey D) (hs : Inv D s) : Inv D s' := by
  induction h with
  | refl => exact hs
  | insert _ hop entry ih => exact ih.insert hinj hop entry
  | remove _ op ih => exact ih.remove hinj op

theorem Steps.of_insert (h : s.insert op entry = (s', r)) (hop : op ∈ D) : Steps D s s' := by
  have := Steps.insert (Steps.refl (s := s)) hop entry
  rwa [h] at this

theorem Steps.of_remove (h : s.remove op = (s', r)) : Steps D s s' := by
  have := Steps.remove (Steps.refl (D := D) (s := s)) op
  rwa [h] at this

theorem spendInputs_steps (D : Set OutPoint) (s : UtxoSet) (inputs : List TxInput) :
    Steps D s (s.spendInputs inputs).1 := by
  induction inputs generalizing s with
  | nil => exact .refl
  | cons input rest ih =>
    simp only [spendInputs]
    split
    · rename_i s' h
      exact .of_remove h
    · rename_i s' entry h
      have := (Steps.of_remove (D := D) h).trans (ih s')
      split <;> simp_all

/-- The outpoints of the outputs of a transaction. -/
def outputsOf (tx : Transaction) : Set OutPoint :=
  { op | ∃ txId, tx.txId = .ok txId ∧ ∃ idx < tx.outputs.length, op = ⟨txId, UInt32.ofNat idx⟩ }

theorem createOutputs_steps (height : UInt64) (isCoinbase : Bool) (s : UtxoSet)
    (hD : ∀ i, idx ≤ i → i < idx + outputs.length → (⟨txId, UInt32.ofNat i⟩ : OutPoint) ∈ D) :
    Steps D s (createOutputs txId height isCoinbase s idx outputs).1 := by
  induction outputs generalizing s idx with
  | nil => exact .refl
  | cons output rest ih =>
    rw [List.length_cons] at hD
    have hop := hD idx le_rfl (by omega)
    simp only [createOutputs]
    split
    · rename_i s' e h
      exact .of_insert h hop
    · rename_i s' h
      have htail : Steps D s' (createOutputs txId height isCoinbase s' (idx + 1) rest).1 :=
        ih s' fun i h1 h2 => hD i (by omega) (by omega)
      have := (Steps.of_insert h hop).trans htail
      split <;> simp_all

theorem applyTransaction_steps (s : UtxoSet) (height : UInt64) (hD : outputsOf tx ⊆ D) :
    Steps D s (s.applyTransaction tx height).1 := by
  unfold applyTransaction
  split
  · exact .refl
  rename_i txId htx
  have hspend : Steps D s (if tx.isCoinbase then (s, .ok []) else s.spendInputs tx.inputs).1 := by
    split
    · exact .refl
    · exact spendInputs_steps D s tx.inputs
  have hcreate : ∀ s', Steps D s' (createOutputs txId height tx.isCoinbase s' 0 tx.outputs).1 :=
    fun s' => createOutputs_steps height tx.isCoinbase s' fun i _ hi =>
      hD ⟨txId, htx, i, by omega, rfl⟩
  split
  · simp_all
  · rename_i s' removed h
    rw [h] at hspend
    have := hspend.trans (hcreate s')
    split <;> simp_all

theorem removeOutputs_steps (D : Set OutPoint) (txId : Hash256) (s : UtxoSet) (idx n : Nat) :
    Steps D s (removeOutputs txId s idx n).1 := by
  induction n generalizing s idx with
  | zero => exact .refl
  | succ n ih =>
    simp only [removeOutputs]
    split
    · rename_i s' h
      exact .of_remove h
    · rename_i s' entry h
      exact (Steps.of_remove h).trans (ih s' (idx + 1))

theorem restoreInputs_steps (s : UtxoSet) (hD : ∀ x ∈ prev, x.1 ∈ D) : Steps D s (s.restoreInputs prev).1 := by
  induction prev generalizing s with
  | nil => exact .refl
  | cons x rest ih =>
    obtain ⟨op, entry⟩ := x
    have hop : op ∈ D := hD _ List.mem_cons_self
    unfold restoreInputs
    split
    · exact .refl
    split
    · rename_i s' e h
      exact .of_insert h hop
    · rename_i s' h
      exact (Steps.of_insert h hop).trans (ih s' fun x hx => hD x (List.mem_cons_of_mem _ hx))

theorem undoTransaction_steps (s : UtxoSet) (tx : Transaction) (hD : ∀ x ∈ prev, x.1 ∈ D) :
    Steps D s (s.undoTransaction tx prev).1 := by
  unfold undoTransaction
  split
  · exact .refl
  split
  · exact .refl
  · rename_i txId _
    have hrem := removeOutputs_steps D txId s 0 tx.outputs.length
    split
    · simp_all
    · rename_i s' h
      rw [h] at hrem
      exact hrem.trans (restoreInputs_steps s' hD)

theorem removeOutputsPartial_steps (D : Set OutPoint) (txId : Hash256) (s : UtxoSet) (idx n : Nat) :
    Steps D s (removeOutputsPartial txId s idx n) := by
  induction n generalizing s idx with
  | zero => exact .refl
  | succ n ih => exact (Steps.refl.remove _).trans (ih _ (idx + 1))

theorem restoreInputsPartial_steps (s : UtxoSet) (hD : ∀ x ∈ prev, x.1 ∈ D) :
    Steps D s (s.restoreInputsPartial prev).1 := by
  induction prev generalizing s with
  | nil => exact .refl
  | cons x rest ih =>
    obtain ⟨op, entry⟩ := x
    have hop : op ∈ D := hD _ List.mem_cons_self
    have hrest : ∀ x ∈ rest, x.1 ∈ D := fun x hx => hD x (List.mem_cons_of_mem _ hx)
    unfold restoreInputsPartial
    split
    · exact ih s hrest
    split
    · rename_i s' e h
      exact .of_insert h hop
    · rename_i s' h
      exact (Steps.of_insert h hop).trans (ih s' hrest)

theorem undoPartialTransaction_steps (s : UtxoSet) (tx : Transaction) (hD : ∀ x ∈ prev, x.1 ∈ D) :
    Steps D s (s.undoPartialTransaction tx prev).1 := by
  unfold undoPartialTransaction
  split
  · exact .refl
  rename_i txId _
  have hrem := removeOutputsPartial_steps D txId s 0 tx.outputs.length
  split
  · exact hrem
  · exact hrem.trans (restoreInputsPartial_steps _ hD)

/-! ## The index and the root follow from the map -/

theorem Inv.byScript_eq (h : Inv D s) (h' : Inv D' s') (heq : s.utxos = s'.utxos) : s.byScript = s'.byScript := by
  refine Finmap.ext_lookup fun script => ?_
  have : liveWith s script = liveWith s' script := by
    ext op
    rw [mem_liveWith, mem_liveWith, heq]
  rw [h.index, h'.index, this]

theorem Inv.stateRoot_eq (h : Inv D s) (h' : Inv D' s') (heq : s.utxos = s'.utxos) :
    s.stateRoot = s'.stateRoot := by
  obtain ⟨m, hm, hleaves⟩ := h.tree
  obtain ⟨m', hm', hleaves'⟩ := h'.tree
  have hmm : m = m' := by
    refine Finmap.ext_lookup fun key => Option.ext fun value => ?_
    rw [hleaves, hleaves', heq]
  rw [stateRoot, stateRoot, hm.root_eq, hm'.root_eq, hmm]

/-! ## Runs -/

/-- A call of one of the mutating operations. -/
inductive Op where
  | insert (op : OutPoint) (entry : UtxoEntry)
  | remove (op : OutPoint)
  | applyTransaction (tx : Transaction) (height : UInt64)
  | undoTransaction (tx : Transaction) (prevUtxos : List (OutPoint × UtxoEntry))
  | undoPartialTransaction (tx : Transaction) (prevUtxos : List (OutPoint × UtxoEntry))

/-- The set a call leaves behind, whether it succeeds or fails. -/
def Op.run (s : UtxoSet) : Op → UtxoSet
  | .insert op entry => (s.insert op entry).1
  | .remove op => (s.remove op).1
  | .applyTransaction tx height => (s.applyTransaction tx height).1
  | .undoTransaction tx prevUtxos => (s.undoTransaction tx prevUtxos).1
  | .undoPartialTransaction tx prevUtxos => (s.undoPartialTransaction tx prevUtxos).1

/-- The outpoints a call may add to the set. -/
def Op.adds : Op → Set OutPoint
  | .insert op _ => {op}
  | .remove _ => ∅
  | .applyTransaction tx _ => outputsOf tx
  | .undoTransaction _ prevUtxos => { op | ∃ x ∈ prevUtxos, x.1 = op }
  | .undoPartialTransaction _ prevUtxos => { op | ∃ x ∈ prevUtxos, x.1 = op }

theorem Op.run_steps (s : UtxoSet) {o : Op} (hD : o.adds ⊆ D) : Steps D s (o.run s) := by
  cases o with
  | insert op entry => exact Steps.refl.insert (hD rfl) entry
  | remove op => exact Steps.refl.remove op
  | applyTransaction tx height => exact applyTransaction_steps s height hD
  | undoTransaction tx prev => exact undoTransaction_steps s tx fun x hx => hD ⟨x, hx, rfl⟩
  | undoPartialTransaction tx prev =>
    exact undoPartialTransaction_steps s tx fun x hx => hD ⟨x, hx, rfl⟩

theorem run_steps (s : UtxoSet) {ops : List Op} (hD : ∀ o ∈ ops, o.adds ⊆ D) : Steps D s (ops.foldl Op.run s) := by
  induction ops generalizing s with
  | nil => exact .refl
  | cons o ops ih =>
    have ho : Steps D s (o.run s) := Op.run_steps s (hD o List.mem_cons_self)
    exact ho.trans (ih _ fun o' ho' => hD o' (List.mem_cons_of_mem _ ho'))

/-- After every sequence of calls, failed ones included, the script index maps each script to
exactly the non-empty set of live outpoints that carry it, and the Merkle tree holds exactly
the leaf of each live outpoint, provided no two outpoints the calls add have the same leaf
key. -/
theorem utxoSet_invariant (ops : List Op) (hinj : Set.InjOn leafKey { op | ∃ o ∈ ops, op ∈ o.adds }) :
    let s := ops.foldl Op.run UtxoSet.new
    (∀ script set, s.byScript.lookup script = some set ↔
      set ≠ ∅ ∧ ∀ op, op ∈ set ↔ ∃ e, s.get op = some e ∧ e.output.script = script) ∧
    (∀ key value, s.smt.tree.findLeaf key = some (some value) ↔
      ∃ op entry bytes, s.get op = some entry ∧ entry.output.serialize = .ok bytes ∧
        key = leafKey op ∧ value = leafValue bytes entry.height entry.isCoinbase) ∧
    ∀ op entry, s.get op = some entry → ∃ bytes, entry.output.serialize = .ok bytes := by
  intro s
  have hsteps : Steps { op | ∃ o ∈ ops, op ∈ o.adds } UtxoSet.new s :=
    run_steps UtxoSet.new fun o ho op hop => ⟨o, ho, hop⟩
  have hinv := hsteps.inv hinj (inv_new _)
  refine ⟨fun script set => ?_, fun key value => ?_, hinv.serializes⟩
  · rw [hinv.index script]
    constructor
    · intro h
      split at h <;> cases h
      rename_i hne
      exact ⟨hne, fun op => mem_liveWith⟩
    · rintro ⟨hne, hmem⟩
      have hset : set = liveWith s script := by
        ext op
        rw [hmem, mem_liveWith]
        rfl
      rw [← hset, if_neg hne]
  · obtain ⟨m, hm, hleaves⟩ := hinv.tree
    rw [Holds.findLeaf hm, Option.some_inj, hleaves]
    rfl

omit [Crypto] in
/-- The hypothesis is met by two outputs of one transaction under a hash that keeps the output
index; the calls insert both, fail to insert the first again, and remove it. -/
theorem utxoSet_invariant_twoOutputs : letI : Crypto := Crypto.ofHash fun bs => hashOfBytes (bs.drop 44)
    let entry : UtxoEntry := ⟨⟨500, [1], none, none⟩, 7, false⟩
    let ops : List Op := [.insert ⟨Hash256.zero, 0⟩ entry, .insert ⟨Hash256.zero, 1⟩ entry,
      .insert ⟨Hash256.zero, 0⟩ entry, .remove ⟨Hash256.zero, 0⟩]
    let s := ops.foldl Op.run UtxoSet.new
    ∀ set, s.byScript.lookup [1] = some set ↔
      set ≠ ∅ ∧ ∀ op, op ∈ set ↔ ∃ e, s.get op = some e ∧ e.output.script = [1] := by
  let _ : Crypto := Crypto.ofHash fun bs => hashOfBytes (bs.drop 44)
  refine (utxoSet_invariant _ ?_).1 [1]
  have hkeys : leafKey ⟨Hash256.zero, 0⟩ ≠ leafKey ⟨Hash256.zero, 1⟩ := by decide
  rintro a ha b hb hab
  simp only [List.mem_cons, List.not_mem_nil, or_false, exists_eq_or_imp, exists_eq_left, Op.adds,
    Set.mem_ofPred_eq, Set.mem_singleton_iff, Set.mem_empty_iff_false] at ha hb
  rcases ha with rfl | rfl | rfl <;> rcases hb with rfl | rfl | rfl <;> first
    | rfl
    | exact absurd hab hkeys
    | exact absurd hab.symm hkeys

end UtxoSet

end Exfer.Proof
