import Exfer.Proof.Block.Mutations
import Exfer.Proof.Block.Undo
import Exfer.Proof.Block.Unique
import Exfer.Proof.Storage.Commits
import Exfer.Spec.Node

/-!
# The UTXO map of a chain

`ChainState` says which outputs are unspent after a chain of accepted blocks. Its last block is
undone with the entries the block spent and applied again without checks (`ChainState.undo`), and no
id or outpoint repeats along it (`ChainState.noRepeats`).
-/

namespace Exfer.Proof

open Lib Impl Spec UtxoSet

variable [Crypto] {chain : List Block} {txs : List Transaction} {m₀ : Map OutPoint UtxoEntry}
  {done : List (Transaction × List (OutPoint × UtxoEntry))}

/-- The transactions of a chain, from the first block on. -/
def chainTxs : List Block → List Transaction
  | [] => []
  | block :: chain => chainTxs chain ++ block.transactions

omit [Crypto] in
theorem mem_chainTxs : tx ∈ chainTxs chain ↔ ∃ block ∈ chain, tx ∈ block.transactions := by
  induction chain with
  | nil => simp [chainTxs]
  | cons block chain ih => simp [chainTxs, ih, or_comm]

/-- Blocks of a chain have different ids, since they have different heights. -/
theorem blockIds_nodup (hids : BlockIdsDistinct known) (h : Chained chain)
    (hknown : ∀ block ∈ chain, block ∈ known) : (chain.map fun block => block.header.blockId).Nodup := by
  have hheights := List.pairwise_map.mp (heights_nodup h)
  refine List.pairwise_map.mpr (hheights.imp_of_mem fun hb hc hne hid => hne ?_)
  rw [hids.ids _ (hknown _ hb) _ (hknown _ hc) hid]

theorem blockId_ne_of_chained (hids : BlockIdsDistinct known) (h : Chained (block :: chain))
    (hknown : ∀ b ∈ block :: chain, b ∈ known) :
    ∀ b ∈ chain, b.header.blockId ≠ block.header.blockId := fun b hb hid =>
  (List.nodup_cons.mp (blockIds_nodup hids h hknown)).1 (List.mem_map.mpr ⟨b, hb, hid⟩)

/-- Spent entries that are read back from the undo metadata they are written to. -/
def ReadsBack (spent : List (OutPoint × UtxoEntry)) : Prop :=
  ∃ bytes, serializeSpentUtxos spent = .ok bytes ∧ deserializeSpentUtxos bytes = some spent

/-! ## Redo -/

section Redo

variable {s s' : UtxoSet}

theorem redoTransactions_append (h : redoTransactions height s txs = (s', .ok ())) :
    redoTransactions height s (txs ++ txs') = redoTransactions height s' txs' := by
  induction txs generalizing s with
  | nil =>
    cases h
    rfl
  | cons tx txs ih =>
    unfold redoTransactions at h
    split at h
    · cases h
    · rename_i happly
      rw [List.cons_append, redoTransactions, happly]
      exact ih h

/-- What has been applied applies again to the map it was applied to. -/
theorem AppliedTxs.redo (h : AppliedTxs height m₀ done m) (hs : s.utxos = m₀) (hinv : Inv D s)
    (hinj : Set.InjOn leafKey D) (hD : ∀ x ∈ done, outputsOf x.1 ⊆ D) :
    ∃ s', redoTransactions height s (done.map Prod.fst).reverse = (s', .ok ()) ∧ s'.utxos = m ∧
      Inv D s' := by
  induction h with
  | nil => exact ⟨s, rfl, hs, hinv⟩
  | @cons done m tx removed txId h hid hkeys hfits hser ih =>
    obtain ⟨s₁, hredo, hs₁, hinv₁⟩ := ih fun x hx => hD x (List.mem_cons_of_mem _ hx)
    -- the transaction applies to what the earlier ones leave
    have hlive : ∀ op ∈ spends tx, ∃ entry, s₁.utxos.lookup op = some entry := by
      intro op hop
      rw [← hkeys] at hop
      obtain ⟨x, hx, rfl⟩ := List.mem_map.mp hop
      exact ⟨x.2, hs₁ ▸ hfits.removed_mem x.1 x.2 hx⟩
    have hfree : ∀ op ∈ (created txId tx height).map Prod.fst, op ∉ spends tx →
        s₁.utxos.lookup op = none := by
      intro op hop hnot
      have := hfits.added_free op hop
      rwa [Map.lookup_eraseAll, if_neg (hkeys ▸ hnot), ← hs₁] at this
    obtain ⟨s', mutations, happly⟩ := applyTransaction_of_free height hid
      (hkeys ▸ hfits.removed_nodup) hlive hfree
    have hsteps := applyTransaction_steps s₁ height (hD (tx, removed) List.mem_cons_self)
    rw [happly] at hsteps
    refine ⟨s', ?_, ?_, hsteps.inv hinj hinv₁⟩
    · rw [List.map_cons, List.reverse_cons, redoTransactions_append hredo]
      simp only [redoTransactions, happly]
    · obtain ⟨txId', removed', hid', hkeys', hfits', hutxos, -⟩ := applyTransaction_ok happly
      obtain rfl : txId = txId' := Except.ok.inj (hid.symm.trans hid')
      have hremoved : removed' = removed := entries_ext (hkeys'.trans hkeys.symm)
        (fun x hx => hfits'.removed_mem x.1 x.2 hx) fun x hx => hs₁ ▸ hfits.removed_mem x.1 x.2 hx
      rw [hutxos, hremoved, hs₁]

theorem undoTransactions_eq (h : undoAppliedTransactions spent s txs = (s', .ok ())) :
    undoTransactions spent s txs = (s', .ok ()) := by
  induction txs generalizing s with
  | nil =>
    cases h
    rfl
  | cons tx txs ih =>
    unfold undoAppliedTransactions at h
    split at h
    · cases h
    · rename_i hundo
      rw [undoTransactions, hundo]
      exact ih h

end Redo

variable [Network]

/-! ## Chains of accepted blocks -/

/-- The outputs that are unspent after a chain of accepted blocks, the latest first; `row` has the
entries each block but the first spent. -/
inductive ChainState (row : Hash256 → List (OutPoint × UtxoEntry) → Prop) :
    List Block → Map OutPoint UtxoEntry → Prop where
  | genesis {block : Block} {s : UtxoSet} {mutations : List UtxoMutation}
      (htxs : block.transactions = [genesisCoinbase]) (hheight : block.header.height = 0)
      (hprev : block.header.prevBlockId = Hash256.zero)
      (happly : UtxoSet.new.applyTransaction genesisCoinbase 0 = (s, .ok mutations)) :
      ChainState row [block] s.utxos
  | extend {parent block : Block} {chain : List Block} {s s' : UtxoSet}
      {r : Nat × List UtxoMutation} {coinbase : Transaction} {rest : List Transaction}
      (h : ChainState row (parent :: chain) s.utxos)
      (hinv : Inv (outputsOfAll (chainTxs (parent :: chain))) s)
      (hfacts : HeaderFacts parent.header block coinbase rest)
      (happly : validateAndApplyBlockTransactionsAtomic block s = some (s', .ok r))
      (hreads : ReadsBack (UtxoMutation.collectSpentUtxos r.2))
      (hrow : row block.header.blockId (UtxoMutation.collectSpentUtxos r.2)) :
      ChainState row (block :: parent :: chain) s'.utxos

section ChainState

variable {row row' : Hash256 → List (OutPoint × UtxoEntry) → Prop} {chain below : List Block}
  {block : Block} {m : Map OutPoint UtxoEntry} {s : UtxoSet} {D : Set OutPoint}
  {all : List Transaction}

theorem ChainState.ne_nil (h : ChainState row chain m) : chain ≠ [] := by
  cases h <;> simp

theorem ChainState.chained (h : ChainState row chain m) : Chained chain := by
  induction h with
  | genesis htxs hheight hprev happly => exact .cons .nil (by rw [hheight]; rfl) hprev
  | extend h hinv hfacts happly hreads hrow ih =>
    refine .cons ih ?_ hfacts.prev
    cases ih with
    | cons _ hheight _ => rw [hfacts.height, hheight, List.length_cons]

theorem ChainState.mono (h : ChainState row chain m)
    (hrow : ∀ block ∈ chain, ∀ spent, ReadsBack spent → row block.header.blockId spent →
      row' block.header.blockId spent) : ChainState row' chain m := by
  induction h with
  | genesis htxs hheight hprev happly => exact .genesis htxs hheight hprev happly
  | extend h hinv hfacts happly hreads hr ih =>
    exact .extend (ih fun block hblock => hrow block (List.mem_cons_of_mem _ hblock)) hinv hfacts
      happly hreads (hrow _ List.mem_cons_self _ hreads hr)

omit [Network] in
theorem Ledger.congr (h : Ledger txs n s) (hs : s'.utxos = s.utxos) (hinv : Inv D s') : Ledger txs n s' := by
  refine ⟨⟨fun op hop => h.inv.live op (hs ▸ hop), hinv.index, hinv.serializes, hinv.tree⟩, ?_, h.heights, ?_⟩
  · rw [hs]
    exact h.spent
  · rw [hs]
    exact h.datums

section

variable (h : ChainState row (block :: below) m)
  (hhash : HashesDistinct (chainTxs (block :: below)))
include h hhash

/-- A set that the blocks lead to has the invariant of a ledger. -/
theorem ChainState.reference :
    ∃ s, s.utxos = m ∧ Ledger (chainTxs (block :: below)) block.header.height.toNat s := by
  generalize hchain : block :: below = chain at h hhash
  induction h generalizing block below with
  | genesis htxs hheight hprev happly =>
    cases hchain
    rw [chainTxs, chainTxs, List.nil_append, htxs] at hhash ⊢
    rw [hheight]
    exact ⟨_, rfl, ledger_genesis hhash happly⟩
  | extend h hinv hfacts happly hreads hrow ih =>
    cases hchain
    obtain ⟨s₀, hs₀, hledger⟩ := ih rfl
      (hashesDistinct_mono hhash fun tx htx => List.mem_append_left _ htx)
    exact ⟨_, rfl, (validateAndApply_ok hfacts hhash (hledger.congr hs₀.symm hinv) happly).1⟩

theorem ChainState.ledger (hs : s.utxos = m) (hinv : Inv D s) :
    Ledger (chainTxs (block :: below)) block.header.height.toNat s := by
  obtain ⟨s₀, hs₀, hledger⟩ := h.reference hhash
  exact hledger.congr (hs.trans hs₀.symm) hinv

end

theorem ChainState.noRepeats (h : ChainState row chain m) (hhash : HashesDistinct (chainTxs chain)) :
    NoRepeats (chainTxs chain) := by
  induction h with
  | genesis htxs hheight hprev happly =>
    rw [chainTxs, chainTxs, List.nil_append, htxs]
    exact noRepeats_genesis
  | extend h hinv hfacts happly hreads hrow ih =>
    have hold := hashesDistinct_mono hhash fun tx htx => List.mem_append_left _ htx
    have hledger := h.ledger hold rfl hinv
    obtain ⟨-, hfresh, done, heffect⟩ := validateAndApply_ok hfacts hhash hledger happly
    exact noRepeats_append (ih hold) hfacts hledger hfresh heffect

omit [Network] in
/-- The transactions and the map before them determine what they remove and the map after them. -/
theorem AppliedTxs.unique (h : AppliedTxs height m₀ done m) (h' : AppliedTxs height m₀ done' m')
    (heq : done.map Prod.fst = done'.map Prod.fst) : m = m' := by
  induction h generalizing done' m' with
  | nil =>
    obtain rfl : done' = [] := List.map_eq_nil_iff.mp heq.symm
    cases h'
    rfl
  | cons h hid hkeys hfits hser ih =>
    cases h' with
    | nil => cases heq
    | cons h' hid' hkeys' hfits' hser' =>
      rw [List.map_cons, List.map_cons, List.cons.injEq] at heq
      obtain ⟨rfl, hrest⟩ := heq
      obtain rfl := ih h' hrest
      obtain rfl := Except.ok.inj (hid.symm.trans hid')
      have hremoved := entries_ext (hkeys.trans hkeys'.symm)
        (fun x hx => hfits.removed_mem x.1 x.2 hx) fun x hx => hfits'.removed_mem x.1 x.2 hx
      rw [hremoved]

/-- The blocks determine the map. -/
theorem ChainState.unique (h : ChainState row chain m) (h' : ChainState row' chain m')
    (hhash : HashesDistinct (chainTxs chain)) : m = m' := by
  induction h generalizing m' with
  | genesis htxs hheight hprev happly =>
    cases h' with
    | genesis htxs' hheight' hprev' happly' =>
      rw [happly] at happly'
      cases happly'
      rfl
  | extend h hinv hfacts happly hreads hrow ih =>
    cases h' with
    | extend h' hinv' hfacts' happly' hreads' hrow' =>
      have hold := hashesDistinct_mono hhash fun tx htx => List.mem_append_left _ htx
      have heq := ih h' hold
      obtain ⟨-, -, done, heffect⟩ := validateAndApply_ok hfacts hhash (h.ledger hold rfl hinv) happly
      obtain ⟨-, -, done', heffect'⟩ :=
        validateAndApply_ok hfacts' hhash (h'.ledger hold rfl hinv') happly'
      rw [heq] at heffect
      exact heffect.applied.unique heffect'.applied (heffect.order.trans heffect'.order.symm)

/-! ## Undo -/

/-- The last block of a chain is undone with the entries it spent, and can be redone. -/
structure Undone (D : Set OutPoint) (block : Block) (spent : List (OutPoint × UtxoEntry))
    (m₀ m : Map OutPoint UtxoEntry) : Prop where
  undo : ∀ s, s.utxos = m → Inv D s → ∃ s₀,
    undoAppliedTransactions spent s block.transactions.reverse = (s₀, .ok ()) ∧ s₀.utxos = m₀ ∧ Inv D s₀
  redo : ∀ s₀, s₀.utxos = m₀ → Inv D s₀ → ∃ s,
    redoTransactions block.header.height s₀ block.transactions = (s, .ok ()) ∧ s.utxos = m ∧ Inv D s

omit [Network] in
/-- A block is undone from the map it leads to, and redone. -/
theorem BlockEffect.undone {mutations : List UtxoMutation}
    (h : BlockEffect txs block mutations m₀ m done) (hhash : HashesDistinct all)
    (hall : ∀ tx ∈ txs ++ block.transactions, tx ∈ all) :
    Undone (outputsOfAll all) block (UtxoMutation.collectSpentUtxos mutations) m₀ m where
  undo s hs hinv := by
    rw [h.spent, ← h.order]
    refine undoApplied h.applied hs hinv hhash.keys h.undo fun x hx => ?_
    obtain ⟨tx, htx, hop⟩ := h.outputs x hx
    exact ⟨tx, hall tx htx, hop⟩
  redo s₀ hs₀ hinv₀ := by
    have horder : block.transactions = (done.map Prod.fst).reverse := by
      rw [h.order, List.reverse_reverse]
    rw [horder]
    refine h.applied.redo hs₀ hinv₀ hhash.keys fun x hx op hop => ⟨x.1, hall x.1 ?_, hop⟩
    rw [horder]
    exact List.mem_append_right _ (List.mem_reverse.mpr (List.mem_map_of_mem hx))

theorem ChainState.undo (h : ChainState row (block :: parent :: below) m)
    (hhash : HashesDistinct all) (hall : ∀ tx ∈ chainTxs (block :: parent :: below), tx ∈ all) :
    ∃ spent m₀, row block.header.blockId spent ∧ ChainState row (parent :: below) m₀ ∧
      Undone (outputsOfAll all) block spent m₀ m := by
  have hdistinct := hashesDistinct_mono hhash hall
  cases h with
  | extend h hinv hfacts happly hreads hrow =>
    have hledger := h.ledger
      (hashesDistinct_mono hdistinct fun tx htx => List.mem_append_left _ htx) rfl hinv
    obtain ⟨-, -, done, heffect⟩ := validateAndApply_ok hfacts hdistinct hledger happly
    exact ⟨_, _, hrow, h, heffect.undone hhash hall⟩

/-! ## One more block -/

/-- What applying a block to the set of a chain does, once its header has been accepted: the state is
reported as broken, the block is rejected and the set is as before, or the chain has a block more. -/
theorem ChainState.apply (h : ChainState row (parent :: below) m) (hhash : HashesDistinct all)
    (hall : ∀ tx ∈ chainTxs (block :: parent :: below), tx ∈ all)
    (hfacts : HeaderFacts parent.header block coinbase rest) (hs : s.utxos = m) (hinv : Inv (outputsOfAll all) s)
    (happly : validateAndApplyBlockTransactionsAtomic block s = some (s', r)) :
    (∃ msg, r = .error (.stateCorrupted msg)) ∨ (∃ e, r = .error e ∧ s'.utxos = m ∧ Inv (outputsOfAll all) s') ∨
    ∃ q, r = .ok q ∧ Inv (outputsOfAll all) s' ∧ ReadsBack (UtxoMutation.collectSpentUtxos q.2) ∧
      Undone (outputsOfAll all) block (UtxoMutation.collectSpentUtxos q.2) m s'.utxos ∧
      ∀ {row'}, ChainState row' (parent :: below) m →
        row' block.header.blockId (UtxoMutation.collectSpentUtxos q.2) →
          ChainState row' (block :: parent :: below) s'.utxos := by
  have hchain := hashesDistinct_mono hhash hall
  have hmono : ∀ op ∈ outputsOfAll (chainTxs (parent :: below) ++ block.transactions),
      op ∈ outputsOfAll all := fun op ⟨tx, htx, hop⟩ => ⟨tx, hall tx htx, hop⟩
  have hledger := h.ledger
    (hashesDistinct_mono hchain fun tx htx => List.mem_append_left _ htx) hs hinv
  obtain ⟨s'', r', hspec, hcases⟩ :=
    validateAndApply_spec hfacts (hfacts.transactions ▸ hchain) hledger
  rw [happly] at hspec
  cases hspec
  rcases hcases with hcorrupted | ⟨e, hr, -, hutxos, hinv'⟩ | ⟨q, hr, hledger', -, done, heffect⟩
  · exact .inl hcorrupted
  · rw [← hfacts.transactions] at hinv'
    exact .inr (.inl ⟨e, hr, hutxos.trans hs, hinv'.mono hmono⟩)
  · rw [← hfacts.transactions] at hledger'
    have hreads := heffect.metadata hledger.datums
    subst hs hr
    exact .inr (.inr ⟨q, rfl, hledger'.inv.mono hmono, hreads, heffect.undone hhash hall,
      fun h' hrow' => .extend h' hledger.inv hfacts happly hreads hrow'⟩)

end ChainState

end Exfer.Proof
