import Exfer.Proof.Node.Chain
import Exfer.Proof.Node.Forks
import Exfer.Proof.Open.Walk

/-!
# Switching to another branch in memory

The walk to the common ancestor gives the blocks above it on both branches (`commonAncestor_spec`).
The old ones are undone with their rows of `SPENT_UTXOS_TABLE` (`undoOldChain_spec`) and the new ones
applied (`applyNewChain_spec`). Where a new block is rejected, the applied ones are undone and the old
ones redone (`restoreOldChain_spec`).
-/

namespace Exfer.Proof

open Lib Impl Spec UtxoSet

variable [Crypto] {block : Block} {s : Storage} {olds blocks : List Block}
  {m₀ : Map OutPoint UtxoEntry} {r : Except ProcessBlockError Unit}
  {applied : List (Block × List UtxoMutation)} {mutations : List UtxoMutation}

/-! ## Paths -/

/-- Blocks from the one with id `id` back to a child of `ancestor`. -/
def Path : List Block → (id ancestor : Hash256) → Prop
  | [], id, ancestor => id = ancestor
  | block :: blocks, id, ancestor =>
    block.header.blockId = id ∧ Path blocks block.header.prevBlockId ancestor

section Path

variable {blocks : List Block} {id ancestor : Hash256}

theorem Path.append (h : Path blocks id midId) (h' : Path blocks' midId ancestor) :
    Path (blocks ++ blocks') id ancestor := by
  induction blocks generalizing id with
  | nil =>
    cases h
    exact h'
  | cons block blocks ih => exact ⟨h.1, ih h.2⟩

/-- The last block of a path extends the ancestor. -/
theorem Path.concat (h : Path (blocks ++ [block]) id ancestor) :
    block.header.prevBlockId = ancestor ∧ Path blocks id block.header.blockId := by
  induction blocks generalizing id with
  | nil => exact ⟨h.2, h.1.symm⟩
  | cons b blocks ih => exact ⟨(ih h.2).1, h.1, (ih h.2).2⟩

/-- A path of stored blocks from the tip is the front of the chain. -/
theorem Path.front (hdb : StoredFrom known s) (hids : BlockIdsDistinct known)
    (hchained : Chained chain) (hbody : ∀ block ∈ chain, HasBody s block)
    (hstored : ∀ block ∈ blocks, HasBody s block) (h : Path blocks (lastId chain) ancestor) :
    ∃ base, chain = blocks ++ base ∧ lastId base = ancestor := by
  induction blocks generalizing chain with
  | nil => exact ⟨chain, rfl, h⟩
  | cons block blocks ih =>
    have hblock := hstored block List.mem_cons_self
    cases hchained with
    | nil => exact absurd h.1 (hids.nonzero block (hdb.blocks _ _ hblock).1)
    | @cons top chain hchained hheight hprev =>
      have htop := hbody top List.mem_cons_self
      have hid : block.header.blockId = top.header.blockId := h.1
      rw [HasBody, ← hid, hblock, Option.some.injEq] at htop
      subst htop
      have hpath := h.2
      rw [hprev] at hpath
      obtain ⟨base, rfl, hbase⟩ := ih hchained
        (fun b hb => hbody b (List.mem_cons_of_mem _ hb))
        (fun b hb => hstored b (List.mem_cons_of_mem _ hb)) hpath
      exact ⟨base, rfl, hbase⟩

end Path

/-! ## The common ancestor -/

section Ancestor

variable {node : Node} {faults : Faults} {id ancestor : Hash256} {n : Nat}

theorem oldBlock_ok (h : node.oldBlock faults context n id = .ok block) :
    block.header.blockId = id ∧ HasBody node.storage block := by
  unfold Node.oldBlock at h
  split at h <;> cases h
  rename_i hget
  obtain ⟨-, hlookup, rfl⟩ := getBlock_eq_ok.mp hget
  exact ⟨rfl, hlookup⟩

theorem newBlock_ok (h : node.newBlock faults n id = .ok block) :
    block.header.blockId = id ∧ HasBody node.storage block := by
  unfold Node.newBlock at h
  split at h <;> cases h
  rename_i hget
  obtain ⟨-, hlookup, rfl⟩ := getBlock_eq_ok.mp hget
  exact ⟨rfl, hlookup⟩

theorem walk_ok {read : Nat → Hash256 → Except ProcessBlockError Block}
    (hread : ∀ n id block, read n id = .ok block → block.header.blockId = id ∧ HasBody s block)
    {count : Nat} (h : Node.walk read count n id = .ok (blocks, ancestor)) :
    Path blocks id ancestor ∧ ∀ block ∈ blocks, HasBody s block := by
  induction count generalizing n id blocks with
  | zero =>
    cases h
    exact ⟨rfl, fun _ h => nomatch h⟩
  | succ count ih =>
    obtain ⟨block, hblock, h⟩ := bind_eq_ok.mp h
    obtain ⟨⟨rest, id'⟩, hrest, h⟩ := bind_eq_ok.mp h
    cases h
    obtain ⟨hid, hbody⟩ := hread n id block hblock
    obtain ⟨hpath, hbodies⟩ := ih hrest
    exact ⟨⟨hid, hpath⟩, List.forall_mem_cons.mpr ⟨hbody, hbodies⟩⟩

theorem walkBoth_ok (h : node.walkBoth faults fuel n m oldId newId = some (.ok (olds, news, ancestor))) :
    (Path olds oldId ancestor ∧ ∀ block ∈ olds, HasBody node.storage block) ∧
      Path news newId ancestor ∧ ∀ block ∈ news, HasBody node.storage block := by
  induction fuel generalizing n m oldId newId olds news with
  | zero => cases h
  | succ fuel ih =>
    unfold Node.walkBoth at h
    split at h
    · rename_i heq
      cases h
      exact ⟨⟨rfl, fun _ h => nomatch h⟩, heq.symm, fun _ h => nomatch h⟩
    split at h
    · cases h
    rename_i old hold
    split at h
    · cases h
    rename_i new hnew
    split at h
    · cases h
    · cases h
    rename_i olds' news' id' hrest
    cases h
    obtain ⟨rfl, holdBody⟩ := oldBlock_ok hold
    obtain ⟨rfl, hnewBody⟩ := newBlock_ok hnew
    obtain ⟨⟨holds, holdBodies⟩, hnews, hnewBodies⟩ := ih hrest
    exact ⟨⟨⟨rfl, holds⟩, List.forall_mem_cons.mpr ⟨holdBody, holdBodies⟩⟩,
      ⟨rfl, hnews⟩, List.forall_mem_cons.mpr ⟨hnewBody, hnewBodies⟩⟩

/-- The blocks to undo are stored blocks from the tip back to the ancestor, and those to apply are the
new block and stored ones below it. -/
theorem commonAncestor_spec (h : node.commonAncestor faults block = some (.ok (olds, news, ancestor))) :
    (Path olds node.tip.blockId ancestor ∧ ∀ b ∈ olds, HasBody node.storage b) ∧
      ∃ rest, news = block :: rest ∧ Path rest block.header.prevBlockId ancestor ∧
        ∀ b ∈ rest, HasBody node.storage b := by
  unfold Node.commonAncestor at h
  dsimp only at h
  split at h
  · cases h
  rename_i olds₁ oldId hold
  split at h
  · cases h
  rename_i news₁ newId hnew
  split at h
  · cases h
  · cases h
  rename_i olds₂ news₂ id' hboth
  cases h
  obtain ⟨hpath, hbodies⟩ := walk_ok (fun _ _ _ => oldBlock_ok) hold
  obtain ⟨hpath', hbodies'⟩ := walk_ok (fun _ _ _ => newBlock_ok) hnew
  obtain ⟨⟨holds, holdBodies⟩, hnews, hnewBodies⟩ := walkBoth_ok hboth
  exact ⟨⟨hpath.append holds, List.forall_mem_append.mpr ⟨hbodies, holdBodies⟩⟩, news₁ ++ news₂, rfl,
    hpath'.append hnews, List.forall_mem_append.mpr ⟨hbodies', hnewBodies⟩⟩

end Ancestor

/-! ## Undoing the old chain -/

/-- The entries that a block spent, as `get_spent_utxos` reads them. -/
def undoRow (s : Storage) (id : Hash256) (spent : List (OutPoint × UtxoEntry)) : Prop :=
  (s.spentUtxos.lookup id).bind deserializeSpentUtxos = some spent

theorem redoBlocks_append {blocks' : List Block} {s s' : UtxoSet} (h : redoBlocks s blocks = (s', .ok ())) :
    redoBlocks s (blocks ++ blocks') = redoBlocks s' blocks' := by
  induction blocks generalizing s with
  | nil =>
    cases h
    rfl
  | cons block blocks ih =>
    unfold redoBlocks at h
    split at h
    · cases h
    · rename_i hredo
      rw [List.cons_append, redoBlocks, hredo]
      exact ih h

/-- Blocks, the latest first, whose redo leads from one map to another. -/
def Redoes (D : Set OutPoint) (blocks : List Block) (m₀ m : Map OutPoint UtxoEntry) : Prop :=
  ∀ s₀, s₀.utxos = m₀ → Inv D s₀ →
    ∃ s, redoOldChainBlocks s₀ blocks = (s, .ok ()) ∧ s.utxos = m ∧ Inv D s

theorem Redoes.cons (h : Redoes D blocks m₀ m₁) (hundone : Undone D block spent m₁ m) :
    Redoes D (block :: blocks) m₀ m := by
  intro s₀ hs₀ hinv₀
  obtain ⟨s₁, hredo₁, hs₁, hinv₁⟩ := h s₀ hs₀ hinv₀
  obtain ⟨s, hredo, hs, hinv⟩ := hundone.redo s₁ hs₁ hinv₁
  refine ⟨s, ?_, hs, hinv⟩
  rw [redoOldChainBlocks] at hredo₁ ⊢
  rw [List.reverse_cons, redoBlocks_append hredo₁]
  simp only [redoBlocks, hredo]

section Undo

variable [Network] {node : Node} {undone : List Block} {s s' : UtxoSet}

omit [Crypto] [Network] in
theorem exists_cons_of_append (xs : List α) (y : α) (ys : List α) : ∃ z zs, xs ++ y :: ys = z :: zs := by
  cases xs with
  | nil => exact ⟨y, ys, rfl⟩
  | cons x xs => exact ⟨x, xs ++ y :: ys, rfl⟩

omit [Network] in
theorem giveUpUndo_fatal (h : Node.giveUpUndo s undone e = (s', r)) : ∃ e, r = .error e ∧ e.isFatal = true := by
  unfold Node.giveUpUndo at h
  split at h <;> cases h <;> exact ⟨_, rfl, rfl⟩

omit [Network] in
theorem undoOldChain_fatal (h : node.undoOldChain faults s undone olds = (s', .error e)) : e.isFatal = true := by
  induction olds generalizing s undone with
  | nil => cases h
  | cons block olds ih =>
    have hgive : ∀ {msg : String}, Node.giveUpUndo s undone msg = (s', .error e) →
        e.isFatal = true := by
      intro msg h
      obtain ⟨e', he', hfatal⟩ := giveUpUndo_fatal h
      cases he'
      exact hfatal
    unfold Node.undoOldChain at h
    split at h
    · exact hgive h
    · exact hgive h
    split at h
    · cases h
      rfl
    · exact ih h

theorem undoOldChain_spec (hhash : HashesDistinct all)
    (hstate : ChainState (undoRow node.storage) (olds ++ parent :: base) m)
    (hall : ∀ tx ∈ chainTxs (olds ++ parent :: base), tx ∈ all) (hs : s.utxos = m)
    (hinv : Inv (outputsOfAll all) s) (h : node.undoOldChain faults s undone olds = (s', .ok ())) :
    ChainState (undoRow node.storage) (parent :: base) s'.utxos ∧ Inv (outputsOfAll all) s' ∧
      Redoes (outputsOfAll all) olds s'.utxos m := by
  induction olds generalizing s m undone with
  | nil =>
    cases h
    subst hs
    exact ⟨hstate, hinv, fun s₀ hs₀ hinv₀ => ⟨s₀, rfl, hs₀, hinv₀⟩⟩
  | cons block olds ih =>
    have hgive : ∀ {msg : String}, Node.giveUpUndo s undone msg ≠ (s', .ok ()) := by
      intro msg h
      obtain ⟨e, he, -⟩ := giveUpUndo_fatal h
      cases he
    unfold Node.undoOldChain at h
    split at h
    · exact absurd h hgive
    · exact absurd h hgive
    rename_i spent hspent
    obtain ⟨-, hread⟩ := answer_eq_ok.mp hspent
    obtain ⟨next, below, hnext⟩ := exists_cons_of_append olds parent base
    rw [List.cons_append, hnext] at hstate hall
    obtain ⟨spent', m₁, hrow, hstate₁, hundone⟩ := hstate.undo hhash hall
    obtain rfl : spent = spent' := Option.some.inj (hread.symm.trans hrow)
    obtain ⟨s₁, hundo, hs₁, hinv₁⟩ := hundone.undo s hs hinv
    rw [undoTransactions_eq hundo] at h
    rw [← hnext] at hstate₁
    have hall₁ : ∀ tx ∈ chainTxs (olds ++ parent :: base), tx ∈ all := by
      rw [hnext]
      exact fun tx htx => hall tx (List.mem_append_left _ htx)
    obtain ⟨hstate', hinv', hredo⟩ := ih hstate₁ hall₁ hs₁ hinv₁ h
    exact ⟨hstate', hinv', hredo.cons hundone⟩

/-- Blocks are undone with the entries they spent. -/
theorem undoBlocks_spec (hhash : HashesDistinct all) (hstate : ChainState row (tops ++ parent :: base) m)
    (hall : ∀ tx ∈ chainTxs (tops ++ parent :: base), tx ∈ all)
    (hspent : ∀ block ∈ tops, ∀ spent, row block.header.blockId spent → allSpent.lookup
      block.header.blockId = some spent) (hs : s.utxos = m) (hinv : Inv (outputsOfAll all) s) :
    ∃ s', undoBlocks allSpent s tops = (s', .ok ()) ∧ ChainState row (parent :: base) s'.utxos ∧
      Inv (outputsOfAll all) s' := by
  induction tops generalizing s m with
  | nil =>
    subst hs
    exact ⟨s, rfl, hstate, hinv⟩
  | cons block tops ih =>
    obtain ⟨next, below, hnext⟩ := exists_cons_of_append tops parent base
    rw [List.cons_append, hnext] at hstate hall
    obtain ⟨spent, m₁, hrow, hstate₁, hundone⟩ := hstate.undo hhash hall
    obtain ⟨s₁, hundo, hs₁, hinv₁⟩ := hundone.undo s hs hinv
    rw [← hnext] at hstate₁
    have hall₁ : ∀ tx ∈ chainTxs (tops ++ parent :: base), tx ∈ all := by
      rw [hnext]
      exact fun tx htx => hall tx (List.mem_append_left _ htx)
    obtain ⟨s', hrest, hstate', hinv'⟩ := ih hstate₁ hall₁
      (fun b hb => hspent b (List.mem_cons_of_mem _ hb)) hs₁ hinv₁
    refine ⟨s', ?_, hstate', hinv'⟩
    simp only [undoBlocks, hspent block List.mem_cons_self spent hrow, undoTransactions_eq hundo, hrest]

end Undo

/-! ## Applying the new chain -/

/-- The entries that a block spent, once the given blocks have been applied. -/
def appliedRow (s : Storage) (applied : List (Block × List UtxoMutation)) (id : Hash256)
    (spent : List (OutPoint × UtxoEntry)) : Prop :=
  ((Node.spentOf applied).lookup id = none → undoRow s id spent) ∧
    ∀ spent', (Node.spentOf applied).lookup id = some spent' → spent' = spent

section Rows

variable {s : Storage} {applied : List (Block × List UtxoMutation)} {block : Block}
  {mutations : List UtxoMutation} {id : Hash256}

theorem spentOf_lookup_eq_none :
    (Node.spentOf applied).lookup id = none ↔ ∀ x ∈ applied, x.1.header.blockId ≠ id := by
  simp only [Node.spentOf, List.lookup_eq_none_iff, List.forall_mem_map, bne_iff_ne, ne_comm]

theorem spentOf_concat : (Node.spentOf (applied ++ [(block, mutations)])).lookup id =
    ((Node.spentOf applied).lookup id).or
      (if id = block.header.blockId then some (UtxoMutation.collectSpentUtxos mutations) else none) := by
  rw [Node.spentOf, List.map_append, List.lookup_append, List.map_singleton]
  simp only [Node.spentOf, List.lookup_cons, List.lookup_nil]
  split <;> simp_all

theorem appliedRow_nil : appliedRow s [] id spent ↔ undoRow s id spent := by
  simp [appliedRow, Node.spentOf]

theorem appliedRow_concat (h : appliedRow s applied id spent) (hne : id ≠ block.header.blockId) :
    appliedRow s (applied ++ [(block, mutations)]) id spent := by
  unfold appliedRow
  rwa [spentOf_concat, if_neg hne, Option.or_none]

theorem appliedRow_last (hnew : ∀ x ∈ applied, x.1.header.blockId ≠ block.header.blockId) :
    appliedRow s (applied ++ [(block, mutations)]) block.header.blockId
      (UtxoMutation.collectSpentUtxos mutations) := by
  unfold appliedRow
  rw [spentOf_concat, if_pos rfl, spentOf_lookup_eq_none.mpr hnew]
  simp

end Rows

/-- The chain with the applied blocks on top. -/
def newChain (applied : List (Block × List UtxoMutation)) (base : List Block) : List Block :=
  (applied.map Prod.fst).reverse ++ base

omit [Crypto] in
theorem newChain_concat : newChain (applied ++ [(block, mutations)]) base = block :: newChain applied base := by
  simp [newChain]

section Apply

variable [Network] {known rest : List Block} {node : Node} {faults : Faults}
  {all : List Transaction} {base : List Block} {block parent : Block} {m : Map OutPoint UtxoEntry}
  {s s' : UtxoSet} {n : Nat}

/-- A block that is applied is the new top of the chain. -/
theorem ChainState.concat (hids : BlockIdsDistinct known) (hknown : ∀ b ∈ block :: newChain applied base, b ∈ known)
    (h : ChainState (appliedRow storage applied) (newChain applied base) m)
    (hextend : ∀ row', ChainState row' (newChain applied base) m → row' block.header.blockId
      (UtxoMutation.collectSpentUtxos mutations) → ChainState row' (block :: newChain applied base)
      m') : ChainState (appliedRow storage (applied ++ [(block, mutations)]))
      (newChain (applied ++ [(block, mutations)]) base) m' := by
  have hchain := hextend (fun _ _ => True) (h.mono fun _ _ _ _ _ => trivial) trivial
  have hnew := blockId_ne_of_chained hids hchain.chained hknown
  rw [newChain_concat]
  refine hextend _ (h.mono fun b hb _ _ hrow => appliedRow_concat hrow (hnew b hb))
    (appliedRow_last fun x hx => hnew x.1 ?_)
  exact List.mem_append_left _ (List.mem_reverse.mpr (List.mem_map_of_mem hx))

section

variable (hdb : StoredFrom known node.storage) (hids : BlockIdsDistinct known)
include hdb hids

theorem checkStoredHeader_ok (hparent : parent ∈ known) (hprev : block.header.prevBlockId = parent.header.blockId)
    (h : node.checkStoredHeader faults n block = .ok ()) :
    ∃ coinbase rest, HeaderFacts parent.header block coinbase rest := by
  unfold Node.checkStoredHeader at h
  dsimp only at h
  split at h
  · cases h
  · cases h
  rename_i header hheader
  split at h
  · cases h
  split at h
  · cases h
  · cases h
  split at h
  · cases h
  rename_i hvalid
  obtain ⟨stored, hstored, rfl, hid⟩ := hdb.headers _ _ (answer_eq_ok.mp hheader).2
  rw [← hids.ids stored hstored parent hparent (hid.trans hprev)]
  exact headerFacts_of_ok hvalid

/-- What one round of the loop does: the failure is fatal, the block is rejected and the map is as
before, or the chain has a block more. -/
theorem applyNewBlock_spec {r : Except ProcessBlockError (List UtxoMutation)}
    (hhash : HashesDistinct all) (hstate : ChainState row (parent :: below) m)
    (hparent : parent ∈ known) (hprev : block.header.prevBlockId = parent.header.blockId)
    (hall : ∀ tx ∈ chainTxs (block :: parent :: below), tx ∈ all) (hs : s.utxos = m)
    (hinv : Inv (outputsOfAll all) s) (h : node.applyNewBlock faults n s block = some (s', r)) :
    (∃ e, r = .error e ∧ e.isFatal = true) ∨ (∃ e, r = .error e ∧ s'.utxos = m ∧ Inv (outputsOfAll all) s') ∨
    ∃ mutations, r = .ok mutations ∧ Inv (outputsOfAll all) s' ∧
      ∀ {row'}, ChainState row' (parent :: below) m →
        row' block.header.blockId (UtxoMutation.collectSpentUtxos mutations) →
          ChainState row' (block :: parent :: below) s'.utxos := by
  unfold Node.applyNewBlock at h
  split at h
  · cases h
    exact .inr (.inl ⟨_, rfl, hs, hinv⟩)
  rename_i hheader
  obtain ⟨coinbase, rest, hfacts⟩ := checkStoredHeader_ok hdb hids hparent hprev hheader
  split at h
  · cases h
  · cases h
    exact .inl ⟨_, rfl, rfl⟩
  · rename_i s₁ e hcorrupted happly
    cases h
    rcases hstate.apply hhash hall hfacts hs hinv happly with ⟨msg, hmsg⟩ | ⟨e', -, hs₁, hinv₁⟩ | ⟨q, hq, -⟩
    · cases hmsg
      exact absurd rfl (hcorrupted msg)
    · exact .inr (.inl ⟨_, rfl, hs₁, hinv₁⟩)
    · cases hq
  rename_i s₁ fees mutations happly
  rcases hstate.apply hhash hall hfacts hs hinv happly with ⟨msg, hmsg⟩ | ⟨e', he', -⟩ |
    ⟨q, hq, hinv₁, -, hundone, hextend⟩
  · cases hmsg
  · cases he'
  cases hq
  split at h
  · obtain ⟨s₂, hundo, hs₂, hinv₂⟩ := hundone.undo s₁ rfl hinv₁
    rw [undoBlockTransactions, hundo] at h
    cases h
    exact .inr (.inl ⟨_, rfl, hs₂, hinv₂⟩)
  · cases h
    exact .inr (.inr ⟨mutations, rfl, hinv₁, hextend⟩)

/-- The new blocks that have been applied are the top of the chain, also when a later one fails. -/
theorem applyNewChain_spec (hhash : HashesDistinct all) (hall : ∀ b ∈ known, ∀ tx ∈ b.transactions, tx ∈ all)
    (hstate : ChainState (appliedRow node.storage applied) (newChain applied base) s.utxos)
    (hinv : Inv (outputsOfAll all) s) (hknown : ∀ b ∈ newChain applied base, b ∈ known)
    (hrest : ∀ b ∈ rest, b ∈ known) (hpath : Path rest.reverse tip (lastId (newChain applied base)))
    (h : node.applyNewChain faults s applied rest = some (s', applied', r)) :
    (∃ e, r = .error e ∧ e.isFatal = true) ∨
    ChainState (appliedRow node.storage applied') (newChain applied' base) s'.utxos ∧
      Inv (outputsOfAll all) s' ∧ ∀ b ∈ newChain applied' base, b ∈ known := by
  induction rest generalizing s applied with
  | nil =>
    cases h
    exact .inr ⟨hstate, hinv, hknown⟩
  | cons block rest ih =>
    obtain ⟨hblock, hrest⟩ := List.forall_mem_cons.mp hrest
    rw [List.reverse_cons] at hpath
    obtain ⟨hprev, hpath⟩ := hpath.concat
    obtain ⟨parent, below, hchain⟩ := List.exists_cons_of_ne_nil hstate.ne_nil
    have hmem : ∀ b ∈ block :: newChain applied base, b ∈ known :=
      List.forall_mem_cons.mpr ⟨hblock, hknown⟩
    have htxs : ∀ tx ∈ chainTxs (block :: newChain applied base), tx ∈ all := by
      intro tx htx
      obtain ⟨b, hb, htx⟩ := mem_chainTxs.mp htx
      exact hall b (hmem b hb) tx htx
    have hround : ∀ {s₁ r₁}, node.applyNewBlock faults applied.length s block = some (s₁, r₁) → _ :=
      fun h => applyNewBlock_spec hdb hids hhash (hchain ▸ hstate) (hknown parent (by simp [hchain]))
        (by rw [hprev, hchain]; rfl) (hchain ▸ htxs) rfl hinv h
    unfold Node.applyNewChain at h
    split at h
    · cases h
    · rename_i happly
      cases h
      rcases hround happly with ⟨e', he', hfatal⟩ | ⟨e', -, hs₁, hinv₁⟩ | ⟨mutations, hr, -⟩
      · exact .inl ⟨e', congrArg _ (Except.error.inj he'), hfatal⟩
      · exact .inr ⟨hs₁ ▸ hstate, hinv₁, hknown⟩
      · cases hr
    · rename_i s₁ mutations happly
      rcases hround happly with ⟨e', he', -⟩ | ⟨e', he', -⟩ | ⟨mutations', hr, hinv₁, hextend⟩
      · cases he'
      · cases he'
      cases hr
      rw [← hchain] at hextend
      have hstate₁ := ChainState.concat hids hmem hstate fun _ => hextend
      exact ih hstate₁ hinv₁ (newChain_concat ▸ hmem) hrest (by rwa [newChain_concat]) h

end

/-- Where the loop over the new blocks gets to its end, all of them are checked and applied. -/
theorem applyNewChain_ok (h : node.applyNewChain faults s applied rest = some (s', applied', .ok ())) :
    applied'.map Prod.fst = applied.map Prod.fst ++ rest ∧
      ∀ b ∈ rest, ∃ n, node.checkStoredHeader faults n b = .ok () := by
  induction rest generalizing s applied with
  | nil =>
    cases h
    exact ⟨(List.append_nil _).symm, fun _ h => nomatch h⟩
  | cons block rest ih =>
    unfold Node.applyNewChain at h
    split at h
    · cases h
    · cases h
    rename_i s₁ mutations happly
    obtain ⟨hblocks, hchecks⟩ := ih h
    constructor
    · rw [hblocks, List.map_append, List.append_assoc]
      rfl
    · refine List.forall_mem_cons.mpr ⟨⟨applied.length, ?_⟩, hchecks⟩
      unfold Node.applyNewBlock at happly
      split at happly
      · cases happly
      · assumption

/-- The applied blocks are undone and the old ones redone. -/
theorem restoreOldChain_spec (hhash : HashesDistinct all)
    (hall : ∀ tx ∈ chainTxs (newChain applied (parent :: base)), tx ∈ all)
    (hold : ChainState (undoRow node.storage) (parent :: base) m₀) (hredo : Redoes (outputsOfAll all) oldChain m₀ m)
    (hstate : ChainState (appliedRow node.storage applied) (newChain applied (parent :: base))
      s.utxos) (hinv : Inv (outputsOfAll all) s) :
    ∃ s', restoreOldChain s context (applied.map Prod.fst) (Node.spentOf applied) oldChain =
      (s', .ok ()) ∧ s'.utxos = m ∧ Inv (outputsOfAll all) s' := by
  have hspent : ∀ b ∈ (applied.map Prod.fst).reverse, ∀ spent,
      appliedRow node.storage applied b.header.blockId spent →
        (Node.spentOf applied).lookup b.header.blockId = some spent := by
    intro b hb spent hrow
    obtain ⟨x, hx, rfl⟩ := List.mem_map.mp (List.mem_reverse.mp hb)
    cases hlookup : (Node.spentOf applied).lookup x.1.header.blockId with
    | none => exact absurd rfl (spentOf_lookup_eq_none.mp hlookup x hx)
    | some spent' => rw [hrow.2 spent' hlookup]
  obtain ⟨s₁, hundo, hstate₁, hinv₁⟩ := undoBlocks_spec hhash hstate hall hspent rfl hinv
  -- the map below the new blocks is the one that was left when the old ones had been undone
  have hbase : ∀ tx ∈ chainTxs (parent :: base), tx ∈ all := by
    intro tx htx
    obtain ⟨b, hb, htx⟩ := mem_chainTxs.mp htx
    exact hall tx (mem_chainTxs.mpr ⟨b, List.mem_append_right _ hb, htx⟩)
  obtain ⟨s', hdone, hs', hinv'⟩ :=
    hredo s₁ (hstate₁.unique hold (hashesDistinct_mono hhash hbase)) hinv₁
  refine ⟨s', ?_, hs', hinv'⟩
  simp only [restoreOldChain, undoAppliedNewChain, hundo, hdone]

end Apply

end Exfer.Proof
