import Exfer.Spec.Chain
import Exfer.Proof.Wire.Transaction

/-!
# The ledger of a chain

`MidBlock` is the invariant of the loop over the transactions of a block, on a chain whose spent
outpoints are gone for good (`Ledger`): the log undoes what has been applied (`undoApplied`), and
the id of an accepted transaction is new (`MidBlock.fresh`), so that its outputs do not clash with
live ones and only the coinbase can fail to apply. A block is rejected and rolled back or extends
the ledger (`applyBlock_spec`), and so every reachable UTXO set has one (`reachable_ledger`).
-/

namespace Exfer.Proof

open Lib Impl Spec UtxoSet

variable [Crypto] {height : UInt64} {m₀ m : Map OutPoint UtxoEntry}
  {done : List (Transaction × List (OutPoint × UtxoEntry))} {spent xs : List (OutPoint × UtxoEntry)}
  {s : UtxoSet} {tx tx' : Transaction} {bytes n : Nat} {txs : List Transaction} {txId : Hash256}
  {mutations : List UtxoMutation}

/-! ## Undoing the applied transactions -/

/-- The transactions of `done`, the latest first, each with the entries it removed, lead from `m₀`
to `m`. -/
inductive AppliedTxs (height : UInt64) (m₀ : Map OutPoint UtxoEntry) :
    List (Transaction × List (OutPoint × UtxoEntry)) → Map OutPoint UtxoEntry → Prop where
  | nil : AppliedTxs height m₀ [] m₀
  | cons {done : List (Transaction × List (OutPoint × UtxoEntry))} {m : Map OutPoint UtxoEntry}
      {tx : Transaction} {removed : List (OutPoint × UtxoEntry)} {txId : Hash256}
      (h : AppliedTxs height m₀ done m) (hid : tx.txId = .ok txId)
      (hkeys : removed.map Prod.fst = spends tx)
      (hfits : (txDelta txId tx height removed).Fits m)
      (hser : ∀ x ∈ removed, ∃ bytes, x.2.output.serialize = .ok bytes) :
      AppliedTxs height m₀ ((tx, removed) :: done) ((txDelta txId tx height removed).apply m)

/-- The mutations of a transaction that removes the given entries. -/
def txMutations (height : UInt64) (x : Transaction × List (OutPoint × UtxoEntry)) :
    List UtxoMutation :=
  x.2.map (fun y => .remove y.1 y.2) ++
    match x.1.txId with
    | .ok txId => (created txId x.1 height).map fun y => .insert y.1 y.2
    | .error _ => []

theorem collectSpentUtxos_txMutations (height : UInt64) (x : Transaction × List (OutPoint × UtxoEntry)) :
    UtxoMutation.collectSpentUtxos (txMutations height x) = x.2 := by
  unfold txMutations
  split <;> simp [UtxoMutation.collectSpentUtxos]

theorem collectSpentUtxos_flatMap (height : UInt64) (done : List (Transaction × List (OutPoint × UtxoEntry))) :
    UtxoMutation.collectSpentUtxos (done.flatMap (txMutations height)) = done.flatMap Prod.snd := by
  induction done with
  | nil => rfl
  | cons x done ih =>
    rw [List.flatMap_cons, List.flatMap_cons, ← ih, ← collectSpentUtxos_txMutations height x]
    exact List.filterMap_append

section

variable (h : AppliedTxs height m₀ done m)
include h

theorem undoApplied (hs : s.utxos = m) (hinv : Inv D s)
    (hinj : Set.InjOn leafKey D) (hspent : ∀ x ∈ done, spentBy x.1 spent = x.2)
    (hD : ∀ x ∈ spent, x.1 ∈ D) : ∃ s', undoAppliedTransactions spent s (done.map Prod.fst) = (s', .ok ()) ∧
      s'.utxos = m₀ ∧ Inv D s' := by
  induction h generalizing s with
  | nil => exact ⟨s, rfl, hs, hinv⟩
  | @cons done m tx removed txId h hid hkeys hfits hser ih =>
    obtain ⟨s₁, hundo, hs₁⟩ := undoTransaction_delta hid hkeys hfits hser hs
    have htx : spentBy tx spent = removed := hspent _ List.mem_cons_self
    have hsteps : Steps D s (s.undoTransaction tx removed).1 := by
      refine undoTransaction_steps s tx fun x hx => ?_
      rw [← htx] at hx
      exact hD x (List.mem_of_mem_filter hx)
    rw [hundo] at hsteps
    obtain ⟨s', hrest, hs', hinv'⟩ := ih hs₁ (hsteps.inv hinj hinv)
      fun x hx => hspent x (List.mem_cons_of_mem _ hx)
    refine ⟨s', ?_, hs', hinv'⟩
    simp only [List.map_cons, undoAppliedTransactions, htx, hundo, hrest]

/-- The outpoint and entry are of an output of one of the transactions. -/
def OutputOf (done : List (Transaction × List (OutPoint × UtxoEntry))) (op : OutPoint)
    (entry : UtxoEntry) : Prop :=
  ∃ x ∈ done, x.1.txId = .ok op.txId ∧ entry.output ∈ x.1.outputs

/-- The entries after the transactions and those they removed were there before, or are outputs of
these transactions. -/
theorem AppliedTxs.entries :
    (∀ op entry, m.lookup op = some entry → m₀.lookup op = some entry ∨ OutputOf done op entry) ∧
    ∀ x ∈ done, ∀ y ∈ x.2, m₀.lookup y.1 = some y.2 ∨ OutputOf done y.1 y.2 := by
  induction h with
  | nil => exact ⟨fun _ _ h => .inl h, fun _ h => nomatch h⟩
  | @cons done m tx removed txId h hid hkeys hfits hser ih =>
    have hmore : ∀ {op entry}, OutputOf done op entry → OutputOf ((tx, removed) :: done) op entry :=
      fun ⟨x, hx, ho⟩ => ⟨x, List.mem_cons_of_mem _ hx, ho⟩
    constructor
    · intro op entry hlookup
      rcases hfits.lookup_apply hlookup with hadded | ⟨_, hlookup⟩
      · obtain ⟨htxId, _, _, houtput⟩ := mem_created hadded
        exact .inr ⟨_, List.mem_cons_self, htxId ▸ hid, houtput⟩
      · exact (ih.1 op entry hlookup).imp_right hmore
    · intro x hx y hy
      rcases List.mem_cons.mp hx with rfl | hx
      · exact (ih.1 y.1 y.2 (hfits.removed_mem _ _ hy)).imp_right hmore
      · exact (ih.2 x hx y hy).imp_right hmore

theorem AppliedTxs.keys : ∀ x ∈ done, x.2.map Prod.fst = spends x.1 := by
  induction h with
  | nil => exact fun _ h => nomatch h
  | cons h hid hkeys hfits hser ih => exact List.forall_mem_cons.mpr ⟨hkeys, ih⟩

end

section

omit [Crypto]

theorem spentBy_append (tx : Transaction) (xs ys : List (OutPoint × UtxoEntry)) :
    spentBy tx (xs ++ ys) = spentBy tx xs ++ spentBy tx ys :=
  List.filter_append ..

theorem spentBy_eq_nil (h : ∀ x ∈ xs, x.1 ∉ tx.inputs.map TxInput.outPoint) : spentBy tx xs = [] := by
  refine List.filter_eq_nil_iff.mpr fun x hx hany => ?_
  obtain ⟨i, hi, heq⟩ := List.any_eq_true.mp hany
  exact h x hx (List.mem_map.mpr ⟨i, hi, of_decide_eq_true heq⟩)

theorem spentBy_eq_self (h : ∀ x ∈ xs, x.1 ∈ tx.inputs.map TxInput.outPoint) : spentBy tx xs = xs := by
  refine List.filter_eq_self.mpr fun x hx => ?_
  obtain ⟨i, hi, heq⟩ := List.mem_map.mp (h x hx)
  exact List.any_eq_true.mpr ⟨i, hi, decide_eq_true heq⟩

end

/-- A snapshot adds live entries of the inputs, and all of them when it stays within the limit. -/
theorem snapshotInputs_spec (hlive : ∀ i ∈ inputs, ∃ entry, s.utxos.lookup i.outPoint = some entry)
    (h : snapshotInputs s spent bytes inputs = (spent', bytes', within)) : ∃ taken, spent' = spent ++ taken ∧
      (∀ x ∈ taken, x.1 ∈ inputs.map TxInput.outPoint ∧ s.utxos.lookup x.1 = some x.2) ∧
      (within = true → taken.map Prod.fst = inputs.map TxInput.outPoint) := by
  induction inputs generalizing spent bytes with
  | nil =>
    cases h
    exact ⟨[], (List.append_nil _).symm, by simp, fun _ => rfl⟩
  | cons i rest ih =>
    obtain ⟨entry, hentry⟩ := hlive i List.mem_cons_self
    have hget : s.get i.outPoint = some entry := hentry
    simp only [snapshotInputs, hget] at h
    split at h
    · cases h
      exact ⟨[], (List.append_nil _).symm, by simp, fun h => nomatch h⟩
    · obtain ⟨taken, hspent, hmem, hkeys⟩ := ih (fun j hj => hlive j (List.mem_cons_of_mem _ hj)) h
      refine ⟨(i.outPoint, entry) :: taken, by rw [hspent, List.append_assoc]; rfl, ?_, ?_⟩
      · exact List.forall_mem_cons.mpr ⟨⟨List.mem_cons_self, hentry⟩, fun x hx =>
          ⟨List.mem_cons_of_mem _ (hmem x hx).1, (hmem x hx).2⟩⟩
      · intro hwithin
        rw [List.map_cons, List.map_cons, hkeys hwithin]

/-- What is counted for the snapshots: the limit bounds their number. -/
def UndoBounded (spent : List (OutPoint × UtxoEntry)) (bytes : Nat) : Prop :=
  53 * spent.length ≤ bytes ∧ bytes ≤ maxSpentUtxosSize

theorem snapshotInputs_bounded (hbounded : UndoBounded spent bytes)
    (h : snapshotInputs s spent bytes inputs = (spent', bytes', true)) : UndoBounded spent' bytes' := by
  induction inputs generalizing spent bytes with
  | nil =>
    cases h
    exact hbounded
  | cons i rest ih =>
    unfold snapshotInputs at h
    split at h
    · exact ih hbounded h
    rename_i entry _
    split at h
    · cases h
    · rename_i hle
      refine ih ⟨?_, Nat.le_of_not_lt hle⟩ h
      have := hbounded.1
      rw [List.length_append, List.length_singleton]
      unfold undoBytes
      omega

omit [Crypto] in
/-- Two lists of entries of a map with the same keys are equal. -/
theorem entries_ext (hkeys : xs.map Prod.fst = ys.map Prod.fst)
    (hxs : ∀ x ∈ xs, m.lookup x.1 = some x.2) (hys : ∀ y ∈ ys, m.lookup y.1 = some y.2) : xs = ys := by
  induction xs generalizing ys with
  | nil => exact (List.map_eq_nil_iff.mp hkeys.symm).symm
  | cons x xs ih =>
    cases ys with
    | nil => cases hkeys
    | cons y ys =>
      rw [List.map_cons, List.map_cons, List.cons.injEq] at hkeys
      have hx := hxs x List.mem_cons_self
      have hy := hys y List.mem_cons_self
      rw [hkeys.1, hy, Option.some.injEq] at hx
      rw [ih hkeys.2 (fun x hx => hxs x (List.mem_cons_of_mem _ hx))
        fun y hy => hys y (List.mem_cons_of_mem _ hy), Prod.ext hkeys.1 hx.symm]

/-! ## The invariants -/

/-- What holds of the chain before a block: its live outpoints are outputs of its transactions, what
a transaction spent is gone, the index of a coinbase's input is at most the height, and datums are
within the limit. -/
structure Ledger (txs : List Transaction) (height : Nat) (s : UtxoSet) : Prop where
  inv : Inv (outputsOfAll txs) s
  spent : ∀ tx ∈ txs, tx.isCoinbase = false → ∀ i ∈ tx.inputs,
    s.utxos.lookup i.outPoint = none ∧ i.prevTxId ∈ idsOf txs
  heights : ∀ tx ∈ txs, ∀ idx, tx.inputs = [⟨Hash256.zero, idx⟩] → idx.toNat ≤ height
  datums : ∀ op entry, s.utxos.lookup op = some entry → DatumFits entry.output

/-- What holds within a block that extends the transactions `txs` from `s₀` by `coinbase :: rest`,
when the transactions of `done` have been applied. -/
structure MidBlock (txs : List Transaction) (coinbase : Transaction) (rest : List Transaction)
    (height : UInt64) (s₀ : UtxoSet) (done : List (Transaction × List (OutPoint × UtxoEntry)))
    (s : UtxoSet) (log : ApplyLog) : Prop where
  inv : Inv (outputsOfAll (txs ++ coinbase :: rest)) s
  log_applied : log.applied = done.map Prod.fst
  applied : AppliedTxs height s₀.utxos done s.utxos
  live : ∀ op entry, s.utxos.lookup op = some entry → op.txId ∈ idsOf (txs ++ done.map Prod.fst)
  /-- What the chain had spent can only be live again as an output of this block's coinbase. -/
  old : ∀ tx ∈ txs, tx.isCoinbase = false → ∀ i ∈ tx.inputs, ∀ entry,
    s.utxos.lookup i.outPoint = some entry →
      (entry.isCoinbase = true ∧ entry.height = height) ∧ coinbase.txId = .ok i.prevTxId
  new : ∀ x ∈ done, x.1.isCoinbase = false → ∀ i ∈ x.1.inputs,
    s.utxos.lookup i.outPoint = none ∧ i.prevTxId ∈ idsOf (txs ++ done.map Prod.fst)
  undo : ∀ x ∈ done, spentBy x.1 log.spent = x.2
  spent : ∀ x ∈ log.spent, x.1 ∈ outputsOfAll (txs ++ coinbase :: rest) ∧
    ∃ y ∈ done, y.1.isCoinbase = false ∧ x.1 ∈ y.1.inputs.map TxInput.outPoint
  mutations : log.mutations = done.reverse.flatMap (txMutations height)
  logged : log.spent = done.reverse.flatMap Prod.snd
  bounded : UndoBounded log.spent log.spentBytes
  /-- The transactions after the coinbase are new and have passed the rules. -/
  valid : ∀ x ∈ done, x.1 = coinbase ∨ x.1.isCoinbase = false ∧
    (∀ o ∈ x.1.outputs, DatumFits o) ∧ ∀ txId, x.1.txId = .ok txId → txId ∉ idsOf txs

/-- What an accepted block does to the map of a chain with transactions `txs`: the transactions of
`done`, the latest first, with the entries they removed. -/
structure BlockEffect (txs : List Transaction) (block : Block) (mutations : List UtxoMutation)
    (m₀ m : Map OutPoint UtxoEntry) (done : List (Transaction × List (OutPoint × UtxoEntry))) :
    Prop where
  order : done.map Prod.fst = block.transactions.reverse
  applied : AppliedTxs block.header.height m₀ done m
  mutations : mutations = done.reverse.flatMap (txMutations block.header.height)
  undo : ∀ x ∈ done, spentBy x.1 (done.reverse.flatMap Prod.snd) = x.2
  outputs : ∀ x ∈ done.reverse.flatMap Prod.snd, x.1 ∈ outputsOfAll (txs ++ block.transactions)
  count : 53 * (done.reverse.flatMap Prod.snd).length ≤ maxSpentUtxosSize
  datums : ∀ tx ∈ block.transactions, ∀ o ∈ tx.outputs, DatumFits o

/-- No transaction of the block has the id of one of the chain. -/
def Fresh (txs : List Transaction) (block : Block) : Prop :=
  ∀ tx ∈ block.transactions, ∀ txId, tx.txId = .ok txId → txId ∉ idsOf txs

theorem idsOf_mono (h : ∀ tx ∈ txs, tx ∈ txs') : idsOf txs ⊆ idsOf txs' := by
  rintro txId ⟨tx, htx, hid⟩
  exact ⟨tx, h tx htx, hid⟩

theorem ne_zero_of_mem_idsOf (h : HashesDistinct txs) (hid : txId ∈ idsOf txs) : txId ≠ Hash256.zero := by
  rintro rfl
  obtain ⟨tx, htx, htxId⟩ := hid
  exact h.nonzero tx htx htxId

/-- Transactions of one id spend the same. -/
theorem inputs_eq_of_txId (h : HashesDistinct txs) (htx : tx ∈ txs) (htx' : tx' ∈ txs)
    (hid : tx.txId = .ok txId) (hid' : tx'.txId = .ok txId) : tx.inputs = tx'.inputs := by
  have hsame := h.ids tx htx tx' htx' txId hid hid'
  obtain ⟨bytes, hbytes, _⟩ := bind_eq_ok.mp hid
  exact (body_eq_of_signingBytes hbytes (hsame ▸ hbytes) (congrArg (· ++ []) rfl)).1

omit [Crypto] in
theorem isCoinbase_congr (h : tx.inputs = tx'.inputs) : tx.isCoinbase = tx'.isCoinbase := by
  rw [Transaction.isCoinbase, Transaction.isCoinbase, h]

/-! ## One transaction -/

section

variable {txs rest : List Transaction} {coinbase tx : Transaction} {height : UInt64}
  {s₀ s : UtxoSet} {done : List (Transaction × List (OutPoint × UtxoEntry))} {log : ApplyLog}

/-- Rolling back to the state before the block, also when entries of a transaction that was not
applied have been logged. -/
theorem MidBlock.rollback (h : MidBlock txs coinbase rest height s₀ done s log)
    (hhash : HashesDistinct (txs ++ coinbase :: rest)) (extra : List (OutPoint × UtxoEntry))
    (hextra : ∀ x ∈ extra, x.1 ∈ outputsOfAll (txs ++ coinbase :: rest) ∧
      ∀ y ∈ done, x.1 ∉ y.1.inputs.map TxInput.outPoint) {α : Type} (context : String) (e : ValidationError) :
    ∃ s', rollback s log.applied (log.spent ++ extra) context e =
        (s', (.error e : Except ValidationError α)) ∧
      s'.utxos = s₀.utxos ∧ Inv (outputsOfAll (txs ++ coinbase :: rest)) s' := by
  have hspent : ∀ x ∈ done, spentBy x.1 (log.spent ++ extra) = x.2 := by
    intro x hx
    rw [spentBy_append, h.undo x hx, spentBy_eq_nil fun y hy => (hextra y hy).2 x hx, List.append_nil]
  have hD : ∀ x ∈ log.spent ++ extra, x.1 ∈ outputsOfAll (txs ++ coinbase :: rest) := by
    intro x hx
    rcases List.mem_append.mp hx with hx | hx
    · exact (h.spent x hx).1
    · exact (hextra x hx).1
  obtain ⟨s', hundo, hs', hinv⟩ := undoApplied h.applied rfl h.inv hhash.keys hspent hD
  refine ⟨s', ?_, hs', hinv⟩
  rw [Impl.rollback, h.log_applied, hundo]

variable (hhash : HashesDistinct (txs ++ coinbase :: rest))
  (hsub : ∀ x ∈ done, x.1 ∈ coinbase :: rest) {op : OutPoint} {entry : UtxoEntry}
include hsub

omit [Crypto] in
theorem mem_chain : ∀ t ∈ txs ++ done.map Prod.fst, t ∈ txs ++ coinbase :: rest := by
  intro t ht
  rcases List.mem_append.mp ht with ht | ht
  · exact List.mem_append_left _ ht
  · obtain ⟨x, hx, rfl⟩ := List.mem_map.mp ht
    exact List.mem_append_right _ (hsub x hx)

include hhash

section

variable (h : MidBlock txs coinbase rest height s₀ done s log)
  (hlookup : s.utxos.lookup op = some entry)
include h hlookup

/-- No output of the sentinel is live. -/
theorem MidBlock.ne_zero : op.txId ≠ Hash256.zero :=
  ne_zero_of_mem_idsOf hhash (idsOf_mono (mem_chain hsub) (h.live op entry hlookup))

/-- A live entry is not spent by the applied transactions, and it is an output of the chain. -/
theorem MidBlock.unspent : op ∈ outputsOfAll (txs ++ coinbase :: rest) ∧
      ∀ y ∈ done, op ∉ y.1.inputs.map TxInput.outPoint := by
  refine ⟨h.inv.live op (Finmap.mem_of_lookup_eq_some hlookup), fun y hy hmem => ?_⟩
  obtain ⟨i, hi, rfl⟩ := List.mem_map.mp hmem
  cases hspend : y.1.isCoinbase with
  | false =>
    rw [(h.new y hy hspend i hi).1] at hlookup
    cases hlookup
  | true =>
    obtain ⟨idx, hinputs⟩ := isCoinbase_iff.mp hspend
    rw [hinputs] at hi
    cases List.mem_singleton.mp hi
    exact MidBlock.ne_zero hhash hsub h hlookup rfl

end

section

variable (h : MidBlock txs coinbase rest height s₀ done s log)
include h

/-- A transaction that passes the rules is not a coinbase. -/
theorem MidBlock.not_coinbase [Network] (hvalid : validateTransaction tx s height = .ok r) : tx.isCoinbase = false := by
  by_contra hcoinbase
  obtain ⟨idx, hinputs⟩ := isCoinbase_iff.mp (Bool.not_eq_false _ ▸ hcoinbase)
  obtain ⟨_, _, hlive⟩ := validateTransaction_ok hvalid
  obtain ⟨entry, hentry, _⟩ := hlive ⟨Hash256.zero, idx⟩ (hinputs ▸ List.mem_singleton_self _)
  exact MidBlock.ne_zero hhash hsub h hentry rfl

/-- The id of an accepted transaction is new. -/
theorem MidBlock.fresh [Network] (htx : tx ∈ coinbase :: rest) (hvalid : validateTransaction tx s height = .ok r)
    (hid : tx.txId = .ok txId) : txId ∉ idsOf (txs ++ done.map Prod.fst) := by
  rintro ⟨tx', htx', hid'⟩
  obtain ⟨hne, _, hlive⟩ := validateTransaction_ok hvalid
  obtain ⟨i, hi⟩ := List.exists_mem_of_ne_nil _ hne
  obtain ⟨entry, hentry, hmature⟩ := hlive i hi
  -- a transaction with this id has spent the same inputs
  have hinputs : tx'.inputs = tx.inputs := inputs_eq_of_txId hhash
    (mem_chain hsub tx' htx') (List.mem_append_right _ htx) hid' hid
  have hspend : tx'.isCoinbase = false := by
    rw [isCoinbase_congr hinputs]
    exact MidBlock.not_coinbase hhash hsub h hvalid
  rcases List.mem_append.mp htx' with hold | hnew
  · exact hmature (h.old tx' hold hspend i (hinputs ▸ hi) entry hentry).1
  · obtain ⟨x, hx, rfl⟩ := List.mem_map.mp hnew
    rw [(h.new x hx hspend i (hinputs ▸ hi)).1] at hentry
    cases hentry

section

variable (hledger : ∀ tx ∈ txs, tx.isCoinbase = false → ∀ i ∈ tx.inputs, i.prevTxId ∈ idsOf txs)
include hledger

/-- The invariant after another transaction, whose entries have been logged. -/
theorem MidBlock.cons (hid : tx.txId = .ok txId) (hspend : tx.isCoinbase = false)
    (hfresh : txId ∉ idsOf (txs ++ done.map Prod.fst))
    (hkeys : removed.map Prod.fst = tx.inputs.map TxInput.outPoint)
    (hfits : (txDelta txId tx height removed).Fits s.utxos)
    (hs' : s'.utxos = (txDelta txId tx height removed).apply s.utxos)
    (hinv : Inv (outputsOfAll (txs ++ coinbase :: rest)) s')
    (hspent : log'.spent = log.spent ++ removed) (happlied : log'.applied = tx :: log.applied)
    (hmutations : log'.mutations = log.mutations ++ txMutations height (tx, removed))
    (hbounded : UndoBounded log'.spent log'.spentBytes) (hdatums : ∀ o ∈ tx.outputs, DatumFits o) :
    MidBlock txs coinbase rest height s₀ ((tx, removed) :: done) s' log' := by
  have hlive : ∀ x ∈ removed, s.utxos.lookup x.1 = some x.2 := fun x hx => hfits.removed_mem _ _ hx
  have hremoved : ∀ x ∈ removed, x.1 ∈ tx.inputs.map TxInput.outPoint := fun x hx =>
    hkeys ▸ List.mem_map_of_mem hx
  have hother := fun x (hx : x ∈ removed) => MidBlock.unspent hhash hsub h (hlive x hx)
  -- an entry after the transaction is one of its outputs or was there before and is not spent
  have hentry : ∀ op entry, s'.utxos.lookup op = some entry →
      op.txId = txId ∨ (op ∉ tx.inputs.map TxInput.outPoint ∧ s.utxos.lookup op = some entry) := by
    intro op entry hop
    rw [hs'] at hop
    rcases hfits.lookup_apply hop with hadded | ⟨hnot, hop⟩
    · exact .inl (mem_created hadded).1
    · exact .inr ⟨hkeys ▸ hnot, hop⟩
  have hids : idsOf (txs ++ done.map Prod.fst) ⊆
      idsOf (txs ++ ((tx, removed) :: done).map Prod.fst) :=
    idsOf_mono fun t ht => by
      rcases List.mem_append.mp ht with ht | ht
      · exact List.mem_append_left _ ht
      · exact List.mem_append_right _ (List.mem_cons_of_mem _ ht)
  -- outpoints of earlier transactions stay as they are, unless spent
  have hearlier : ∀ op, op.txId ∈ idsOf (txs ++ done.map Prod.fst) → ∀ entry,
      s'.utxos.lookup op = some entry → s.utxos.lookup op = some entry := by
    intro op hop entry hlookup
    rcases hentry op entry hlookup with rfl | ⟨_, h⟩
    · exact absurd hop hfresh
    · exact h
  refine ⟨hinv, by rw [happlied, h.log_applied]; rfl, ?_, ?_, ?_, ?_, ?_, ?_, ?_, ?_, hbounded, ?_⟩
  · rw [hs']
    refine .cons h.applied hid ?_ hfits fun x hx => ?_
    · rw [hkeys, spends, if_neg (by simp [hspend])]
    · exact h.inv.serializes x.1 x.2 (hlive x hx)
  · intro op entry hop
    rcases hentry op entry hop with rfl | ⟨_, hop⟩
    · exact ⟨tx, List.mem_append_right _ List.mem_cons_self, hid⟩
    · exact hids (h.live op entry hop)
  · intro u hu hus i hi entry hlookup
    have hprev := hledger u hu hus i hi
    have hmem : i.outPoint.txId ∈ idsOf (txs ++ done.map Prod.fst) :=
      idsOf_mono (fun t ht => List.mem_append_left _ ht) hprev
    exact h.old u hu hus i hi entry (hearlier _ hmem entry hlookup)
  · intro x hx hxs i hi
    rcases List.mem_cons.mp hx with rfl | hx
    · have hop : i.outPoint ∈ removed.map Prod.fst := hkeys ▸ List.mem_map_of_mem hi
      obtain ⟨y, hy, hyop⟩ := List.mem_map.mp hop
      have hprev : i.outPoint.txId ∈ idsOf (txs ++ done.map Prod.fst) := by
        rw [← hyop]
        exact h.live y.1 y.2 (hlive y hy)
      refine ⟨?_, hids hprev⟩
      refine Option.eq_none_iff_forall_ne_some.mpr fun entry hlookup => ?_
      rcases hentry _ entry hlookup with heq | ⟨hnot, _⟩
      · exact hfresh (heq ▸ hprev)
      · exact hnot (List.mem_map_of_mem hi)
    · obtain ⟨hnone, hprev⟩ := h.new x hx hxs i hi
      refine ⟨?_, hids hprev⟩
      refine Option.eq_none_iff_forall_ne_some.mpr fun entry hlookup => ?_
      rw [hearlier i.outPoint hprev entry hlookup] at hnone
      cases hnone
  · intro x hx
    rw [hspent, spentBy_append]
    rcases List.mem_cons.mp hx with rfl | hx
    · rw [spentBy_eq_self hremoved, spentBy_eq_nil fun y hy => ?_, List.nil_append]
      -- what has been logged before is no longer live
      obtain ⟨_, z, hz, hzs, hmem⟩ := h.spent y hy
      intro hop
      rw [← hkeys] at hop
      obtain ⟨w, hw, hwop⟩ := List.mem_map.mp hop
      exact (hother w hw).2 z hz (hwop ▸ hmem)
    · rw [h.undo x hx, spentBy_eq_nil fun y hy => (hother y hy).2 x hx, List.append_nil]
  · intro x hx
    rw [hspent] at hx
    rcases List.mem_append.mp hx with hx | hx
    · obtain ⟨hD, y, hy, hrest⟩ := h.spent x hx
      exact ⟨hD, y, List.mem_cons_of_mem _ hy, hrest⟩
    · exact ⟨(hother x hx).1, (tx, removed), List.mem_cons_self, hspend, hremoved x hx⟩
  · rw [hmutations, h.mutations, List.reverse_cons, List.flatMap_append, List.flatMap_singleton]
  · rw [hspent, h.logged, List.reverse_cons, List.flatMap_append, List.flatMap_singleton]
  · refine List.forall_mem_cons.mpr ⟨.inr ⟨hspend, hdatums, fun txId' hid' hmem => hfresh ?_⟩, h.valid⟩
    rw [hid] at hid'
    cases hid'
    exact idsOf_mono (fun t ht => List.mem_append_left _ ht) hmem

/-- The set a failed application leaves: that before the block. -/
def Restored (txs : List Transaction) (s₀ s : UtxoSet) : Prop :=
  s.utxos = s₀.utxos ∧ Inv (outputsOfAll txs) s

/-- One round of the loop rejects the block and rolls back, or keeps the invariant. -/
theorem MidBlock.applyNext [Network] (htx : tx ∈ coinbase :: rest) : (∃ s' e, applyNext s log tx height = (s', .error e) ∧ IsRejection e ∧
      Restored (txs ++ coinbase :: rest) s₀ s') ∨ (∃ s' log' removed, applyNext s log tx height = (s', .ok log') ∧
      MidBlock txs coinbase rest height s₀ ((tx, removed) :: done) s' log') := by
  unfold Impl.applyNext
  split
  · rename_i e hinvalid
    left
    obtain ⟨s', hroll, hs'⟩ := MidBlock.rollback h hhash [] (by simp) e.display e
    rw [List.append_nil] at hroll
    exact ⟨s', e, hroll, validateTransaction_rejects tx s height e hinvalid, hs'⟩
  · rename_i fee _ _ hvalid
    obtain ⟨_, hnodup, hinputs⟩ := validateTransaction_ok hvalid
    have hlive : ∀ i ∈ tx.inputs, ∃ entry, s.utxos.lookup i.outPoint = some entry := by
      intro i hi
      obtain ⟨entry, hentry, _⟩ := hinputs i hi
      exact ⟨entry, hentry⟩
    obtain ⟨txId, hid⟩ := validateTransaction_txId hvalid
    have hspend := MidBlock.not_coinbase hhash hsub h hvalid
    have hfresh := MidBlock.fresh hhash hsub h htx hvalid hid
    have hspends : spends tx = tx.inputs.map TxInput.outPoint := by
      rw [spends, if_neg (by simp [hspend])]
    split
    · rename_i spent bytes hsnapshot
      left
      obtain ⟨taken, rfl, htaken, _⟩ := snapshotInputs_spec hlive hsnapshot
      obtain ⟨s', hroll, hs'⟩ := MidBlock.rollback h hhash taken (fun x hx =>
        MidBlock.unspent hhash hsub h (htaken x hx).2)
        "undo metadata overflow" (.blockTooLarge bytes)
      exact ⟨s', .blockTooLarge bytes, hroll, trivial, hs'⟩
    · rename_i spent bytes hsnapshot
      right
      obtain ⟨taken, rfl, htaken, hall⟩ := snapshotInputs_spec hlive hsnapshot
      obtain ⟨s', mutations, happly⟩ := applyTransaction_of_free (s := s) height hid
        (hspends ▸ hnodup)
        (fun op hop => by
          rw [hspends] at hop
          obtain ⟨i, hi, rfl⟩ := List.mem_map.mp hop
          exact hlive i hi)
        (fun op hop _ => by
          obtain ⟨⟨op, entry⟩, hmem, rfl⟩ := List.mem_map.mp hop
          refine Option.eq_none_iff_forall_ne_some.mpr fun e hlookup => hfresh ?_
          rw [← (mem_created hmem).1]
          exact h.live op e hlookup)
      obtain ⟨txId', removed, hid', hkeys, hfits, hs', hmutations⟩ := applyTransaction_ok happly
      obtain rfl : txId = txId' := by
        rw [hid] at hid'
        cases hid'
        rfl
      rw [hspends] at hkeys
      obtain rfl : removed = taken := entries_ext (hkeys.trans (hall rfl).symm)
        (fun x hx => hfits.removed_mem _ _ hx) fun x hx => (htaken x hx).2
      have hsteps : Steps (outputsOfAll (txs ++ coinbase :: rest)) s
          (s.applyTransaction tx height).1 :=
        applyTransaction_steps s height fun op hop =>
          ⟨tx, List.mem_append_right _ htx, hop⟩
      rw [happly] at hsteps
      rw [happly]
      refine ⟨s', _, removed, rfl, MidBlock.cons hhash hsub h hledger hid hspend hfresh hkeys
        hfits hs' (hsteps.inv hhash.keys h.inv) rfl rfl ?_
        (snapshotInputs_bounded h.bounded hsnapshot) (validateTransaction_inv hvalid).1.each.datums⟩
      rw [hmutations, txMutations, hid]

end

end

end

/-! ## Whole blocks -/

section

variable {txs rest : List Transaction} {coinbase : Transaction} {parent : BlockHeader}
  {block : Block} {s₀ s : UtxoSet} {log : ApplyLog}

/-- The loop over the transactions rejects the block and rolls back, or applies all of them. -/
theorem MidBlock.applyRest [Network] (hhash : HashesDistinct (txs ++ coinbase :: rest))
    (hledger : ∀ tx ∈ txs, tx.isCoinbase = false → ∀ i ∈ tx.inputs, i.prevTxId ∈ idsOf txs)
    {r₁ r₂ : List Transaction} (hrest : rest = r₁ ++ r₂) (hdone : done.map Prod.fst = (coinbase :: r₁).reverse)
    (h : MidBlock txs coinbase rest height s₀ done s log) :
    (∃ s' e, applyRest height s log r₂ = (s', .error e) ∧ IsRejection e ∧
      Restored (txs ++ coinbase :: rest) s₀ s') ∨ (∃ s' log' done', applyRest height s log r₂ = (s', .ok log') ∧
      done'.map Prod.fst = (coinbase :: rest).reverse ∧
      MidBlock txs coinbase rest height s₀ done' s' log') := by
  induction r₂ generalizing r₁ done s log with
  | nil =>
    rw [List.append_nil] at hrest
    exact .inr ⟨s, log, done, rfl, by rw [hdone, hrest], h⟩
  | cons tx r₂ ih =>
    have hsub : ∀ x ∈ done, x.1 ∈ coinbase :: rest := by
      intro x hx
      have hmem : x.1 ∈ (coinbase :: r₁).reverse := hdone ▸ List.mem_map_of_mem hx
      rw [hrest, ← List.cons_append]
      exact List.mem_append_left _ (List.mem_reverse.mp hmem)
    have htx : tx ∈ coinbase :: rest := by simp [hrest]
    rcases MidBlock.applyNext hhash hsub h hledger htx with
      ⟨s', e, hnext, hreject, hs'⟩ | ⟨s', log', removed, hnext, h'⟩
    · exact .inl ⟨s', e, by simp only [Impl.applyRest, hnext], hreject, hs'⟩
    · have hrest' : rest = (r₁ ++ [tx]) ++ r₂ := by simp [hrest]
      have hdone' : ((tx, removed) :: done).map Prod.fst = (coinbase :: (r₁ ++ [tx])).reverse := by
        rw [List.map_cons, hdone]
        simp
      simp only [Impl.applyRest, hnext]
      exact ih hrest' hdone' h'

/-- The coinbase starts the loop. -/
theorem midBlock_of_coinbase (hcoinbase : coinbase.isCoinbase = true)
    (hhash : HashesDistinct (txs ++ coinbase :: rest)) (hledger : Ledger txs n s₀)
    (happly : s₀.applyTransaction coinbase height = (s, .ok mutations)) :
    MidBlock txs coinbase rest height s₀ [(coinbase, [])] s
      { mutations, spent := [], spentBytes := 0, applied := [coinbase], fees := 0 } := by
  obtain ⟨txId, removed, hid, hkeys, hfits, hs, hmutations⟩ := applyTransaction_ok happly
  rw [spends, if_pos hcoinbase, List.map_eq_nil_iff] at hkeys
  subst hkeys
  have hsteps : Steps (outputsOfAll (txs ++ coinbase :: rest)) s₀
      (s₀.applyTransaction coinbase height).1 :=
    applyTransaction_steps s₀ height fun op hop =>
      ⟨coinbase, List.mem_append_right _ List.mem_cons_self, hop⟩
  rw [happly] at hsteps
  have hinv₀ : Inv (outputsOfAll (txs ++ coinbase :: rest)) s₀ :=
    hledger.inv.mono fun op => Exists.imp fun tx h => ⟨List.mem_append_left _ h.1, h.2⟩
  refine ⟨hsteps.inv hhash.keys hinv₀, rfl, ?_, ?_, ?_, ?_, ?_, ?_, ?_, rfl, ⟨Nat.le_refl _, Nat.zero_le _⟩, ?_⟩
  · rw [hs]
    exact .cons .nil hid (by rw [spends, if_pos hcoinbase]; rfl) hfits (by simp)
  · intro op entry hop
    rw [hs] at hop
    rcases hfits.lookup_apply hop with hadded | ⟨_, hop⟩
    · exact ⟨coinbase, by simp, by rw [(mem_created hadded).1, hid]⟩
    · obtain ⟨tx, htx, txId', hid', idx, _, rfl⟩ :=
        hledger.inv.live op (Finmap.mem_of_lookup_eq_some hop)
      exact ⟨tx, List.mem_append_left _ htx, hid'⟩
  · intro tx htx hspend i hi entry hop
    rw [hs] at hop
    rcases hfits.lookup_apply hop with hadded | ⟨_, hop⟩
    · obtain ⟨htxId, hheight, hentry, _⟩ := mem_created hadded
      exact ⟨⟨hentry.trans hcoinbase, hheight⟩, by rw [hid, ← htxId]; rfl⟩
    · rw [(hledger.spent tx htx hspend i hi).1] at hop
      cases hop
  · intro x hx hspend
    rw [List.mem_singleton.mp hx, hcoinbase] at hspend
    cases hspend
  · intro x hx
    rw [List.mem_singleton.mp hx]
    rfl
  · exact fun x hx => absurd hx List.not_mem_nil
  · simp [hmutations, txMutations, hid]
  · intro x hx
    rw [List.mem_singleton.mp hx]
    exact .inl rfl

/-- The effect of an accepted block. -/
theorem MidBlock.effect (htxs : block.transactions = coinbase :: rest)
    (hreward : validateCoinbase coinbase block.header.height reward = .ok ())
    (h : MidBlock txs coinbase rest block.header.height s₀ done s log)
    (hdone : done.map Prod.fst = (coinbase :: rest).reverse) :
    BlockEffect txs block log.mutations s₀.utxos s.utxos done := by
  refine ⟨by rw [hdone, htxs], h.applied, h.mutations, ?_, ?_, ?_, ?_⟩
  · rw [← h.logged]
    exact h.undo
  · rw [← h.logged, htxs]
    exact fun x hx => (h.spent x hx).1
  · rw [← h.logged]
    exact h.bounded.1.trans h.bounded.2
  · intro tx hmem
    rw [htxs, ← List.mem_reverse, ← hdone] at hmem
    obtain ⟨x, hx, rfl⟩ := List.mem_map.mp hmem
    rcases h.valid x hx with hcoinbase | ⟨_, hdatums, _⟩
    · rw [hcoinbase]
      exact (validateCoinbase_inv hreward).1.each.datums
    · exact hdatums

/-- The datums of what is live after a block and of what it spent are within the limit. -/
theorem BlockEffect.entries_fit (h : BlockEffect txs block mutations m₀ m done)
    (hdatums : ∀ op entry, m₀.lookup op = some entry → DatumFits entry.output) :
    (∀ op entry, m.lookup op = some entry → DatumFits entry.output) ∧
      ∀ x ∈ done.reverse.flatMap Prod.snd, DatumFits x.2.output := by
  have hblock : ∀ {op entry}, OutputOf done op entry → DatumFits entry.output := by
    rintro op entry ⟨x, hx, _, ho⟩
    refine h.datums x.1 ?_ _ ho
    rw [← List.mem_reverse, ← h.order]
    exact List.mem_map_of_mem hx
  obtain ⟨hlive, hspent⟩ := h.applied.entries
  constructor
  · intro op entry hlookup
    rcases hlive op entry hlookup with hold | hnew
    · exact hdatums op entry hold
    · exact hblock hnew
  · intro y hy
    obtain ⟨x, hx, hy⟩ := List.mem_flatMap.mp hy
    rcases hspent x (List.mem_reverse.mp hx) y hy with hold | hnew
    · exact hdatums y.1 y.2 hold
    · exact hblock hnew

section

variable (hfacts : HeaderFacts parent block coinbase rest)
  (hhash : HashesDistinct (txs ++ coinbase :: rest))
  (hledger : Ledger txs parent.height.toNat s₀) {reward : Nat}
  (hreward : validateCoinbase coinbase block.header.height reward = .ok ())
include hfacts hreward

theorem coinbase_index :
    ∃ idx, coinbase.inputs = [⟨Hash256.zero, idx⟩] ∧ idx.toNat = block.header.height.toNat := by
  obtain ⟨hlt, hindex⟩ := validateCoinbase_ok hreward
  obtain ⟨idx, hinputs⟩ := isCoinbase_iff.mp hfacts.first
  refine ⟨idx, hinputs, ?_⟩
  have := hindex _ (by rw [hinputs]; exact List.mem_singleton_self _)
  rw [show idx = block.header.height.toUInt32 from this, UInt64.toNat_toUInt32]
  exact Nat.mod_eq_of_lt hlt

include hhash hledger

/-- The coinbase is new because it carries the height. -/
theorem coinbase_fresh (hid : coinbase.txId = .ok txId) : txId ∉ idsOf txs := by
  rintro ⟨tx, htx, hid'⟩
  obtain ⟨idx, hinputs, hidx⟩ := coinbase_index hfacts hreward
  have hsame : tx.inputs = coinbase.inputs := inputs_eq_of_txId hhash
    (List.mem_append_left _ htx) (List.mem_append_right _ List.mem_cons_self) hid' hid
  have := hledger.heights tx htx idx (hsame.trans hinputs)
  have := hfacts.height
  omega

section

variable (h : MidBlock txs coinbase rest block.header.height s₀ done s log)
  (hdone : done.map Prod.fst = (coinbase :: rest).reverse)
include h hdone

theorem MidBlock.fresh_block : Fresh txs block := by
  intro tx hmem txId hid
  rw [hfacts.transactions, ← List.mem_reverse, ← hdone] at hmem
  obtain ⟨x, hx, rfl⟩ := List.mem_map.mp hmem
  rcases h.valid x hx with hcoinbase | ⟨_, _, hfresh⟩
  · exact coinbase_fresh hfacts hhash hledger hreward (hcoinbase ▸ hid)
  · exact hfresh txId hid

/-- An accepted block extends the ledger. -/
theorem MidBlock.ledger : Ledger (txs ++ coinbase :: rest) block.header.height.toNat s := by
  obtain ⟨idx, hinputs, hidx⟩ := coinbase_index hfacts hreward
  have hnew : ∀ txId, coinbase.txId = .ok txId → txId ∉ idsOf txs := fun txId hid =>
    coinbase_fresh hfacts hhash hledger hreward hid
  have hsub : ∀ x ∈ done, x.1 ∈ coinbase :: rest := fun x hx =>
    List.mem_reverse.mp (hdone ▸ List.mem_map_of_mem hx)
  have heffect := h.effect hfacts.transactions hreward hdone
  refine ⟨h.inv, ?_, ?_, (heffect.entries_fit hledger.datums).1⟩
  · intro tx htx hspend i hi
    rcases List.mem_append.mp htx with hold | hblock
    · have hprev := (hledger.spent tx hold hspend i hi).2
      refine ⟨?_, idsOf_mono (fun t ht => List.mem_append_left _ ht) hprev⟩
      refine Option.eq_none_iff_forall_ne_some.mpr fun entry hop => ?_
      exact hnew _ (h.old tx hold hspend i hi entry hop).2 hprev
    · have hmem : tx ∈ done.map Prod.fst := by
        rw [hdone]
        exact List.mem_reverse.mpr hblock
      obtain ⟨x, hx, rfl⟩ := List.mem_map.mp hmem
      obtain ⟨hnone, hprev⟩ := h.new x hx hspend i hi
      exact ⟨hnone, idsOf_mono (mem_chain hsub) hprev⟩
  · intro tx htx idx' hidx'
    rcases List.mem_append.mp htx with hold | hblock
    · have := hledger.heights tx hold idx' hidx'
      have := hfacts.height
      omega
    · rcases List.mem_cons.mp hblock with rfl | hother
      · rw [hinputs] at hidx'
        cases hidx'
        exact hidx.le
      · have := hfacts.others tx hother
        rw [isCoinbase_iff.mpr ⟨idx', hidx'⟩] at this
        cases this

end

end

/-- A block whose coinbase can be applied is rejected and rolled back, or all its transactions are
applied and the coinbase claims the right reward. -/
theorem applyBlock_spec [Network] (hcoinbase : coinbase.isCoinbase = true)
    (hhash : HashesDistinct (txs ++ coinbase :: rest)) (hledger : Ledger txs n s₀)
    (happly : s₀.applyTransaction coinbase header.height = (s, .ok mutations)) :
    (∃ s' e, applyBlock header coinbase rest s₀ = (s', .error e) ∧ IsRejection e ∧
      Restored (txs ++ coinbase :: rest) s₀ s') ∨
    (∃ s' log done, applyBlock header coinbase rest s₀ = (s', .ok (log.fees, log.mutations)) ∧
      validateCoinbase coinbase header.height (blockReward header.height + log.fees) = .ok () ∧
      done.map Prod.fst = (coinbase :: rest).reverse ∧
      MidBlock txs coinbase rest header.height s₀ done s' log) := by
  have hstart := midBlock_of_coinbase hcoinbase hhash hledger happly
  unfold applyBlock applyCoinbase
  rw [happly]
  dsimp only
  rcases MidBlock.applyRest hhash (fun tx htx hspend i hi =>
      (hledger.spent tx htx hspend i hi).2) (List.nil_append rest).symm rfl hstart with
    ⟨s', e, hrest, hreject, hs'⟩ | ⟨s', log, done, hrest, hdone, h⟩
  · exact .inl ⟨s', e, by rw [hrest], hreject, hs'⟩
  · rw [hrest]
    dsimp only
    split
    · rename_i context e hcheck
      left
      obtain ⟨s'', hroll, hs''⟩ := MidBlock.rollback h hhash [] (by simp) context e
      rw [List.append_nil] at hroll
      refine ⟨s'', e, hroll, ?_, hs''⟩
      unfold checkReward at hcheck
      repeat' split at hcheck
      all_goals cases hcheck
      · exact trivial
      · exact trivial
      · exact validateCoinbase_rejects _ _ _ _ ‹_›
    · rename_i hcheck
      refine .inr ⟨s', log, done, rfl, ?_, hdone, h⟩
      unfold checkReward at hcheck
      repeat' split at hcheck
      all_goals try cases hcheck
      assumption

/-- A coinbase that cannot be applied is reported as a broken state. -/
theorem applyBlock_corrupted [Network] (h : s₀.applyTransaction coinbase header.height = (s, .error e)) :
    ∃ s' msg, applyBlock header coinbase rest s₀ = (s', .error (.stateCorrupted msg)) := by
  unfold applyBlock applyCoinbase
  rw [h]
  dsimp only
  rcases s.undoTransaction coinbase [] with ⟨s', e' | _⟩ <;> exact ⟨s', _, rfl⟩

/-- Applying a block after its header has been accepted: the coinbase cannot be applied, the block
is rejected and rolled back, or it extends the ledger. -/
theorem validateAndApply_spec [Network] (hfacts : HeaderFacts parent block coinbase rest)
    (hhash : HashesDistinct (txs ++ coinbase :: rest)) (hledger : Ledger txs parent.height.toNat s₀) :
    ∃ s' r, validateAndApplyBlockTransactionsAtomic block s₀ = some (s', r) ∧
      ((∃ msg, r = .error (.stateCorrupted msg)) ∨
        (∃ e, r = .error e ∧ IsRejection e ∧ Restored (txs ++ coinbase :: rest) s₀ s') ∨
        ∃ q, r = .ok q ∧ Ledger (txs ++ coinbase :: rest) block.header.height.toNat s' ∧
          Fresh txs block ∧ ∃ done, BlockEffect txs block q.2 s₀.utxos s'.utxos done) := by
  rw [validateAndApplyBlockTransactionsAtomic, hfacts.transactions]
  rcases hcoinbase : s₀.applyTransaction coinbase block.header.height with ⟨s, e | mutations⟩
  · obtain ⟨s', msg, hcorrupted⟩ := applyBlock_corrupted hcoinbase
    exact ⟨s', _, congrArg some hcorrupted, .inl ⟨msg, rfl⟩⟩
  · rcases applyBlock_spec hfacts.first hhash hledger hcoinbase with
      ⟨s', e, herror, hreject, hs'⟩ | ⟨s', log, done, hok, hreward, hdone, h⟩
    · exact ⟨s', _, congrArg some herror, .inr (.inl ⟨e, rfl, hreject, hs'⟩)⟩
    · exact ⟨s', _, congrArg some hok, .inr (.inr ⟨_, rfl, MidBlock.ledger hfacts hhash hledger hreward h hdone,
        MidBlock.fresh_block hfacts hhash hledger hreward h hdone,
        done, h.effect hfacts.transactions hreward hdone⟩)⟩

/-- An accepted block extends the ledger. -/
theorem validateAndApply_ok [Network] (hfacts : HeaderFacts parent block coinbase rest)
    (hhash : HashesDistinct (txs ++ block.transactions)) (hledger : Ledger txs parent.height.toNat s₀)
    (happly : validateAndApplyBlockTransactionsAtomic block s₀ = some (s, .ok r)) :
    Ledger (txs ++ block.transactions) block.header.height.toNat s ∧ Fresh txs block ∧
      ∃ done, BlockEffect txs block r.2 s₀.utxos s.utxos done := by
  rw [hfacts.transactions] at hhash ⊢
  obtain ⟨s', r', hspec, hcases⟩ := validateAndApply_spec hfacts hhash hledger
  rw [happly] at hspec
  cases hspec
  rcases hcases with ⟨_, h⟩ | ⟨_, h, _⟩ | ⟨_, h, hextends⟩
  · cases h
  · cases h
  · cases h
    exact hextends

end

/-! ## Chains -/

section

variable {txs : List Transaction} {s : UtxoSet}

theorem hashesDistinct_mono (h : HashesDistinct txs') (hsub : ∀ tx ∈ txs, tx ∈ txs') : HashesDistinct txs :=
  ⟨fun tx htx tx' htx' => h.ids tx (hsub tx htx) tx' (hsub tx' htx'),
    fun tx htx => h.nonzero tx (hsub tx htx),
    h.keys.mono fun op (hop : op ∈ outputsOfAll txs) => by
      obtain ⟨tx, htx, hop⟩ := hop
      exact ⟨tx, hsub tx htx, hop⟩⟩

variable [Network]

theorem genesisTemplate_ok (h : genesisTemplate = some (template, s)) :
    template.transactions = [genesisCoinbase] ∧ template.header.height = 0 ∧
      template.header.timestamp = genesisTimestamp ∧
      template.header.difficultyTarget = genesisTarget ∧
      ∃ mutations, UtxoSet.new.applyTransaction genesisCoinbase 0 = (s, .ok mutations) := by
  unfold genesisTemplate at h
  obtain ⟨root, _, h⟩ := Option.bind_eq_some_iff.mp h
  split at h <;> cases h
  rename_i s' mutations happly
  exact ⟨rfl, rfl, rfl, rfl, mutations, happly⟩

theorem genesisBlock_ok (h : genesisBlock = some block ∨ devnetGenesisBlock = some block) :
    block.transactions = [genesisCoinbase] ∧ block.header.height = 0 := by
  unfold genesisBlock devnetGenesisBlock at h
  rcases h with h | h
  all_goals
    obtain ⟨⟨template, s⟩, htemplate, h⟩ := Option.bind_eq_some_iff.mp h
    obtain ⟨htxs, hheight, _⟩ := genesisTemplate_ok htemplate
    rw [← Option.some.inj h]
    exact ⟨htxs, hheight⟩

omit [Network] in
/-- The outputs of a transaction with a new id are free. -/
theorem Ledger.free (h : Ledger txs n s) (hid : tx.txId = .ok txId) (hnew : txId ∉ idsOf txs) :
    ∀ op ∈ outputsOf tx, s.utxos.lookup op = none := by
  rintro op ⟨txId', hid', idx, _, rfl⟩
  refine Option.eq_none_iff_forall_ne_some.mpr fun entry hlookup => hnew ?_
  obtain ⟨tx', htx', txId'', hid'', idx', _, heq⟩ :=
    h.inv.live _ (Finmap.mem_of_lookup_eq_some hlookup)
  rw [hid] at hid'
  cases hid'
  obtain rfl : txId = txId'' := congrArg OutPoint.txId heq
  exact ⟨tx', htx', hid''⟩

omit [Network] in
theorem ledger_genesis (hhash : HashesDistinct [genesisCoinbase])
    (happly : UtxoSet.new.applyTransaction genesisCoinbase 0 = (s, .ok mutations)) :
    Ledger [genesisCoinbase] 0 s := by
  have hsteps : Steps (outputsOfAll [genesisCoinbase]) UtxoSet.new
      (UtxoSet.new.applyTransaction genesisCoinbase 0).1 :=
    applyTransaction_steps _ 0 fun op hop => ⟨genesisCoinbase, by simp, hop⟩
  rw [happly] at hsteps
  refine ⟨hsteps.inv hhash.keys (inv_new _), ?_, ?_, ?_⟩
  · intro tx htx hspend
    rw [List.mem_singleton.mp htx] at hspend
    cases hspend
  · intro tx htx idx hidx
    rw [List.mem_singleton.mp htx] at hidx
    cases hidx
    exact Nat.zero_le _
  · intro op entry hlookup
    obtain ⟨txId, removed, _, _, hfits, hs, _⟩ := applyTransaction_ok happly
    rw [hs] at hlookup
    rcases hfits.lookup_apply hlookup with hadded | ⟨_, hnone⟩
    · intro d hd
      rw [List.mem_singleton.mp (mem_created hadded).2.2.2] at hd
      cases hd
    · exact absurd hnone (by rw [UtxoSet.new, Finmap.lookup_empty]; simp)

/-- Every reachable UTXO set has the invariant. -/
theorem reachable_ledger (h : Reachable txs tip s) (hhash : HashesDistinct txs) :
    Ledger txs tip.height.toNat s := by
  induction h with
  | genesis hblock hs =>
    obtain ⟨htxs, hheight⟩ := genesisBlock_ok hblock
    obtain ⟨_, _, _, _, mutations, happly⟩ := genesisTemplate_ok hs
    rw [htxs] at hhash ⊢
    rw [hheight]
    exact ledger_genesis hhash happly
  | @extend txs parent s s' block timestamps target clock skipPow r h hheader happly ih =>
    obtain ⟨coinbase, rest, hfacts⟩ := headerFacts_of_ok hheader
    have hledger := ih (hashesDistinct_mono hhash fun tx htx => List.mem_append_left _ htx)
    exact (validateAndApply_ok hfacts hhash hledger happly).1

end

end Exfer.Proof
