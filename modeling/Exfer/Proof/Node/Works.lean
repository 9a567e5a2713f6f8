import Exfer.Proof.Node.Commit
import Exfer.Proof.Numbers.Difficulty
import Exfer.Spec.Headers

/-!
# The work table

Every row of `WORK_TABLE` is the cumulative work of a header (`WorkRows`), not only those of the
canonical chain: evictions take rows away (`FewerWorks`), a fork block is stored with the work
computed from the row of its parent, and a demoted one with the row it has. A header has one
cumulative work (`cumulativeWork_unique`), so the work computed along a promoted branch is that of
the rows it replaces.
-/

namespace Exfer.Proof

open Lib Impl Spec

variable [Crypto] {work : Work} {block : Block}

/-- The headers of blocks. -/
def headersOf (known : List Block) : Set BlockHeader :=
  { h | ∃ block ∈ known, block.header = h }

theorem headersOf_injOn (hids : BlockIdsDistinct known) : (headersOf known).InjOn BlockHeader.blockId := by
  rintro _ ⟨block, hblock, rfl⟩ _ ⟨block', hblock', rfl⟩ h
  exact hids.ids block hblock block' hblock' h

/-! ## One cumulative work -/

section Unique

theorem cumulativeWork_mem (hwork : CumulativeWork S h work) : h ∈ S := by
  cases hwork with
  | first hmem _ => exact hmem
  | child _ hmem _ _ => exact hmem

theorem cumulativeWork_unique (hinj : S.InjOn BlockHeader.blockId) (hwork : CumulativeWork S h work)
    (hwork' : CumulativeWork S h work') : work = work' := by
  induction hwork generalizing work' with
  | first hmem hzero =>
    cases hwork' with
    | first _ _ => rfl
    | child _ _ _ hheight =>
      rw [hzero] at hheight
      exact absurd hheight nofun
  | child hparent hmem hprev hheight ih =>
    cases hwork' with
    | first _ hzero =>
      rw [hzero] at hheight
      exact absurd hheight nofun
    | child hparent' _ hprev' _ =>
      -- the two parents have the same id
      obtain rfl := hinj (cumulativeWork_mem hparent) (cumulativeWork_mem hparent')
        (hprev.symm.trans hprev')
      rw [ih hparent']

end Unique

section Chains

/-- The work of a chain is the cumulative work of its last header. -/
theorem cumulativeWork_chain (h : Chained (block :: below)) (hknown : ∀ b ∈ block :: below, b ∈ known) :
    CumulativeWork (headersOf known) block.header (chainWork (block :: below)) := by
  induction below generalizing block with
  | nil =>
    cases h with
    | cons _ hheight _ =>
      have hwork : chainWork [block] = workFromTarget block.header.difficultyTarget :=
        addWork_noWork _
      rw [hwork]
      exact .first ⟨block, hknown block List.mem_cons_self, rfl⟩ (UInt64.toNat_inj.mp hheight)
  | cons parent below ih =>
    cases h with
    | cons hbelow hheight hprev =>
      have hparent := ih hbelow fun b hb => hknown b (List.mem_cons_of_mem _ hb)
      have hstep : block.header.height.toNat = parent.header.height.toNat + 1 := by
        cases hbelow with
        | cons _ hheight' _ => rw [hheight, hheight', List.length_cons]
      exact .child hparent ⟨block, hknown block List.mem_cons_self, rfl⟩ hprev hstep

end Chains

/-! ## Rows -/

/-- Every row of the work table is the cumulative work of a header with that id. -/
def WorkRows (known : List Block) (s : Storage) : Prop :=
  ∀ id work, s.work.lookup id = some work →
    ∃ h, h.blockId = id ∧ CumulativeWork (headersOf known) h work

/-- Every row of the work table was there before. -/
def FewerWorks (s s' : Storage) : Prop :=
  ∀ id work, s'.work.lookup id = some work → s.work.lookup id = some work

section Rows

variable {known : List Block} {s s' : Storage} {node : Node}

omit [Crypto] in
theorem FewerWorks.refl (s : Storage) : FewerWorks s s :=
  fun _ _ h => h

omit [Crypto] in
theorem FewerWorks.trans (h : FewerWorks s s') (h' : FewerWorks s' s'') : FewerWorks s s'' :=
  fun id work hrow => h id work (h' id work hrow)

theorem WorkRows.fewer (h : WorkRows known s) (hfewer : FewerWorks s s') : WorkRows known s' :=
  fun id work hrow => h id work (hfewer id work hrow)

/-- Rows of cumulative work may be added. -/
theorem WorkRows.insertAll {m : Map Hash256 Work} (rows : List (Hash256 × Work))
    (h : ∀ id work, m.lookup id = some work →
      ∃ h, h.blockId = id ∧ CumulativeWork (headersOf known) h work)
    (hrows : ∀ row ∈ rows, ∃ h, h.blockId = row.1 ∧ CumulativeWork (headersOf known) h row.2) :
    ∀ id work, (m.insertAll rows).lookup id = some work →
      ∃ h, h.blockId = id ∧ CumulativeWork (headersOf known) h work := by
  intro id work hlookup
  rcases Map.lookup_insertAll_cases m rows id with heq | ⟨work', hrow, heq⟩
  · exact h id work (heq.symm.trans hlookup)
  · rw [heq] at hlookup
    cases hlookup
    exact hrows _ hrow

/-- The row of a header whose id is that of a known block. -/
theorem WorkRows.of_lookup (h : WorkRows known s) (hids : BlockIdsDistinct known)
    (hblock : block ∈ known) (hrow : s.work.lookup block.header.blockId = some work) :
    CumulativeWork (headersOf known) block.header work := by
  obtain ⟨header, hid, hwork⟩ := h _ _ hrow
  obtain rfl := headersOf_injOn hids (cumulativeWork_mem hwork) ⟨block, hblock, rfl⟩ hid
  exact hwork

/-! ### Evictions -/

section

omit [Crypto]

theorem fewerWorks_dropForkBlock (s : Storage) (id : Hash256) : FewerWorks s (s.dropForkBlock id) := by
  unfold Storage.dropForkBlock
  dsimp only
  split
  · exact .refl _
  · exact .refl _

theorem fewerWorks_forgetForkHeader (s : Storage) (row : Hash256 × UInt64) :
    FewerWorks s (s.forgetForkHeader row) := by
  unfold Storage.forgetForkHeader
  dsimp only
  split
  · exact .refl _
  intro id work hlookup
  rw [Map.lookup_erase_eq] at hlookup
  split at hlookup
  · cases hlookup
  · exact hlookup

theorem fewerWorks_enforceCap (s : Storage) (faults : Nat → Option String) (maxRetained : Nat) :
    FewerWorks s (s.enforceRetainedForkHeaderCap faults maxRetained).1 := by
  have hfold : ∀ (rows : List (Hash256 × UInt64)) (s : Storage),
      FewerWorks s (rows.foldl Storage.forgetForkHeader s) := by
    intro rows
    induction rows with
    | nil => exact .refl
    | cons row rows ih => exact fun s => (fewerWorks_forgetForkHeader s row).trans (ih _)
  unfold Storage.enforceRetainedForkHeaderCap
  split
  · exact .refl _
  split
  · exact .refl _
  split
  · exact .refl _
  · exact hfold _ s

theorem fewerWorks_evictForkBlock (s : Storage) (faults : Nat → Option String) (id : Hash256) :
    FewerWorks s (s.evictForkBlock faults id).1 := by
  unfold Storage.evictForkBlock
  split
  · exact .refl _
  · exact (fewerWorks_dropForkBlock s id).trans (fewerWorks_enforceCap _ _ _)

theorem fewerWorks_evictAll (faults : Nat → Nat → Option String) (n : Nat) (s : Storage)
    (ids : List Hash256) : FewerWorks s (evictAll faults n s ids).1 := by
  induction ids generalizing s n with
  | nil => exact .refl _
  | cons id ids ih =>
    have hstep := fewerWorks_evictForkBlock s (faults n) id
    unfold evictAll
    split
    · rename_i heq
      rwa [heq] at hstep
    · rename_i heq
      rw [heq] at hstep
      exact hstep.trans (ih (n + 1) _)

theorem fewerWorks_evictTrimmed [Network] (faults : Faults) (n : Nat) (s : Storage)
    (ids : List Hash256) : FewerWorks s (Node.evictTrimmed faults n s ids) := by
  induction ids generalizing s n with
  | nil => exact .refl _
  | cons id ids ih => exact (fewerWorks_evictForkBlock s _ id).trans (ih (n + 1) _)

end

/-! ### Stores -/

theorem WorkRows.storeForkBlock (h : WorkRows known s) (hwork : CumulativeWork (headersOf known) block.header work)
    (hstore : s.storeForkBlockAtomic fault block work = .ok s') : WorkRows known s' := by
  obtain ⟨-, rfl⟩ := storeForkBlockAtomic_ok hstore
  exact WorkRows.insertAll [(block.header.blockId, work)] h
    (List.forall_mem_singleton.mpr ⟨block.header, rfl, hwork⟩)

theorem WorkRows.demoteBlocks [Network] (h : WorkRows known s) (hids : BlockIdsDistinct known)
    (faults : Faults) (n : Nat) (hknown : ∀ b ∈ olds, b ∈ known) :
    WorkRows known (Node.demoteBlocks faults n s olds).1 := by
  induction olds generalizing s n with
  | nil => exact h
  | cons block olds ih =>
    obtain ⟨hblock, holds⟩ := List.forall_mem_cons.mp hknown
    unfold Node.demoteBlocks
    split
    · rename_i work hwork
      split
      · exact ih h (n + 1) holds
      · rename_i hstore
        have hrow := h.of_lookup hids hblock (answer_eq_ok.mp hwork).2
        exact ih (h.storeForkBlock hrow hstore) (n + 1) holds
    · exact ih h (n + 1) holds

section

variable (h : WorkRows known node.storage)
include h

theorem WorkRows.demote [Network] (hids : BlockIdsDistinct known) (faults : Faults) (news : List Block)
    (hknown : ∀ b ∈ olds, b ∈ known) : WorkRows known (node.demote faults olds news).storage := by
  have hdemoted := h.demoteBlocks hids faults 0 hknown
  unfold Node.demote
  dsimp only
  generalize trimPool _ _ _ = trimmed
  exact hdemoted.fewer (fewerWorks_evictTrimmed faults 0 _ trimmed.2)

theorem WorkRows.admitForkBlock (faults : Faults)
    (evicted : Option Hash256) (hwork : CumulativeWork (headersOf known) block.header work) :
    WorkRows known (node.admitForkBlock faults block work evicted).1.storage := by
  have hroom : WorkRows known (node.makeForkRoom faults evicted).1 := by
    cases evicted with
    | none => exact h
    | some id => exact h.fewer (fewerWorks_evictForkBlock _ _ id)
  unfold Node.admitForkBlock
  dsimp only
  split
  · rename_i heq
    rwa [heq] at hroom
  rename_i heq
  rw [heq] at hroom
  split
  · exact hroom
  rename_i hstore
  have hstored := hroom.storeForkBlock hwork hstore
  split
  · exact hstored
  · exact hstored
  generalize Node.commitForkBlock _ _ _ _ = committed
  have htrimmed := hstored.fewer
    (fewerWorks_evictAll (fun n i => faults (.forkTrim n i)) 0 _ committed.2)
  split
  · rename_i heq
    rwa [heq] at htrimmed
  · rename_i heq
    rwa [heq] at htrimmed

theorem WorkRows.storeFork (faults : Faults)
    (hwork : CumulativeWork (headersOf known) block.header newTip.cumulativeWork) :
    WorkRows known (node.storeFork faults block newTip).1.storage := by
  have hstep : WorkRows known
      (node.tryStoreForkBlock faults block newTip.cumulativeWork).1.storage := by
    unfold Node.tryStoreForkBlock
    dsimp only
    repeat' split
    all_goals first
      | exact h
      | exact h.admitForkBlock faults _ hwork
  unfold Node.storeFork
  split
  · exact h
  split
  · exact h
  split
  · exact h
  split
  · rename_i heq
    rwa [heq] at hstep
  · rename_i heq
    rwa [heq] at hstep

end

end Rows

end Exfer.Proof
