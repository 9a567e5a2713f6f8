import Exfer.Impl.Open
import Exfer.Proof.Storage.Commits

/-!
# The structural walk

The loops of `open.rs` follow the canonical chain from block to block (`Linked`). The walk of
`open_chain` checks each block on its own beside that, and adds up the work of the blocks
(`walk_eq_ok`).
-/

namespace Exfer.Proof

open Lib Impl

theorem orMessage_eq_ok : orMessage msg x = .ok a ↔ x = some a := by
  cases x <;> simp [orMessage]

theorem orStorageError_eq_ok : orStorageError context x = .ok a ↔ x = .ok a := by
  cases x <;> simp [orStorageError]

variable [Crypto] {prevId id : Hash256} {height : UInt64} {block : Block}

/-- The canonical block at a height, as `readCanonical` finds it. -/
structure CanonicalAt (s : Storage) (expectedGenesisId : Hash256) (height : UInt64) (id : Hash256)
    (block : Block) : Prop where
  index : s.heightIndex.lookup height = some id
  genesis : height = 0 → id = expectedGenesisId
  body : s.blocks.lookup id = some block
  id_eq : block.header.blockId = id

theorem readCanonical_eq_ok :
    readCanonical s expectedGenesisId missingIndex missingBlock prevId height = .ok (id, block) ↔
      CanonicalAt s expectedGenesisId height id block ∧ block.header.prevBlockId = prevId := by
  constructor
  · intro h
    obtain ⟨id', hindex, h⟩ := bind_eq_ok.mp h
    obtain ⟨⟨⟩, hgenesis, h⟩ := bind_eq_ok.mp h
    obtain ⟨stored, hstored, h⟩ := bind_eq_ok.mp h
    obtain ⟨block', hblock, h⟩ := bind_eq_ok.mp h
    obtain ⟨⟨⟩, hprev, h⟩ := bind_eq_ok.mp h
    cases h
    rw [orMessage_eq_ok] at hindex hblock
    subst hblock
    obtain ⟨-, hbody, hid⟩ := getBlock_eq_ok.mp (orStorageError_eq_ok.mp hstored)
    exact ⟨⟨hindex, fun h0 => not_not.mp fun hne => failIf_eq_ok.mp hgenesis ⟨h0, hne⟩, hbody, hid⟩,
      not_not.mp (failIf_eq_ok.mp hprev)⟩
  · rintro ⟨⟨hindex, hgenesis, hbody, hid⟩, hprev⟩
    refine bind_eq_ok.mpr ⟨id, orMessage_eq_ok.mpr hindex, ?_⟩
    refine failIf_then (fun h => h.2 (hgenesis h.1)) ?_
    refine bind_eq_ok.mpr ⟨some block, orStorageError_eq_ok.mpr (getBlock_eq_ok.mpr ⟨rfl, hbody, hid⟩), ?_⟩
    refine bind_eq_ok.mpr ⟨block, rfl, ?_⟩
    exact failIf_then (not_not.mpr hprev) rfl

variable [Network]

/-- The work of the canonical block at a height. -/
def canonicalWork (s : Storage) (height : UInt64) : Work :=
  match (s.heightIndex.lookup height).bind fun id => s.blocks.lookup id with
  | some block => workFromTarget block.header.difficultyTarget
  | none => noWork

/-- The given work with that of the canonical blocks at some heights. -/
def workOver (s : Storage) (heights : List UInt64) (work : Work) : Work :=
  heights.foldl (fun work height => addWork work (canonicalWork s height)) work

section Walk

variable {s : Storage} {expectedGenesisId : Hash256} {proven : Bool}

omit [Network] in
theorem CanonicalAt.work (h : CanonicalAt s expectedGenesisId height id block) :
    canonicalWork s height = workFromTarget block.header.difficultyTarget := by
  rw [canonicalWork, h.index, Option.bind_some, h.body]

omit [Network] in
theorem CanonicalAt.unique (h : CanonicalAt s expectedGenesisId height id block)
    (h' : CanonicalAt s expectedGenesisId height id' block') : id = id' ∧ block = block' := by
  have hid : id = id' := Option.some.inj (h.index.symm.trans h'.index)
  subst hid
  exact ⟨rfl, Option.some.inj (h.body.symm.trans h'.body)⟩

theorem walkBlock_eq_ok : walkBlock s expectedGenesisId proven (prevId, work) height = .ok (id, work') ↔
      ∃ block, CanonicalAt s expectedGenesisId height id block ∧ block.header.prevBlockId = prevId ∧
        checkWalked s proven height block = .ok () ∧
        work' = addWork work (canonicalWork s height) := by
  constructor
  · intro h
    obtain ⟨⟨id', block⟩, hread, h⟩ := bind_eq_ok.mp h
    obtain ⟨⟨⟩, hcheck, h⟩ := bind_eq_ok.mp h
    cases h
    obtain ⟨hblock, hprev⟩ := readCanonical_eq_ok.mp hread
    exact ⟨block, hblock, hprev, hcheck, by rw [hblock.work]⟩
  · rintro ⟨block, hblock, hprev, hcheck, rfl⟩
    refine bind_eq_ok.mpr ⟨_, readCanonical_eq_ok.mpr ⟨hblock, hprev⟩, ?_⟩
    rw [hblock.work]
    exact bind_eq_ok.mpr ⟨(), hcheck, rfl⟩

omit [Crypto] [Network] in
theorem heightsFrom_split (h : height ≤ last) :
    heightsFrom 0 last = heightsFrom 0 height ++ heightsFrom (height.toNat + 1) last := by
  have hle : height.toNat ≤ last.toNat := h
  have hadd : last.toNat + 1 - 0 = height.toNat + 1 - 0 + (last.toNat + 1 - (height.toNat + 1)) := by
    omega
  rw [heightsFrom, heightsFrom, heightsFrom, hadd, ← List.range'_append_1, List.map_append]
  simp

omit [Crypto] [Network] in
theorem heightsFrom_concat (height : UInt64) :
    heightsFrom 0 height = (List.range' 0 height.toNat).map UInt64.ofNat ++ [height] := by
  rw [heightsFrom, Nat.sub_zero, List.range'_1_concat, List.map_append]
  simp

/-! ## Following the chain -/

/-- The canonical blocks at some heights follow each other, from one on `prevId` to `lastId`, and
pass a check. -/
def Linked (s : Storage) (expectedGenesisId : Hash256) (check : UInt64 → Block → Prop) :
    (heights : List UInt64) → (prevId lastId : Hash256) → Prop
  | [], prevId, lastId => prevId = lastId
  | height :: heights, prevId, lastId => ∃ id block,
    CanonicalAt s expectedGenesisId height id block ∧ block.header.prevBlockId = prevId ∧
      check height block ∧ Linked s expectedGenesisId check heights id lastId

section Linked

variable {check : UInt64 → Block → Prop} {prevId lastId : Hash256}

section

omit [Network]

theorem Linked.mono (hcheck : ∀ height block, check height block → check' height block)
    (h : Linked s expectedGenesisId check heights prevId lastId) :
    Linked s expectedGenesisId check' heights prevId lastId := by
  induction heights generalizing prevId with
  | nil => exact h
  | cons height heights ih =>
    obtain ⟨id, block, hblock, hprev, hc, h⟩ := h
    exact ⟨id, block, hblock, hprev, hcheck height block hc, ih h⟩

/-- The heights and the last block fix the block before the first one. -/
theorem Linked.prev_eq (h : Linked s expectedGenesisId check heights prevId lastId)
    (h' : Linked s expectedGenesisId check' heights prevId' lastId) : prevId = prevId' := by
  cases heights with
  | nil => exact h.trans h'.symm
  | cons height heights =>
    obtain ⟨id, block, hblock, rfl, -⟩ := h
    obtain ⟨id', block', hblock', rfl, -⟩ := h'
    rw [(hblock.unique hblock').2]

theorem linked_append : Linked s expectedGenesisId check (xs ++ ys) prevId lastId ↔
      ∃ midId, Linked s expectedGenesisId check xs prevId midId ∧
        Linked s expectedGenesisId check ys midId lastId := by
  induction xs generalizing prevId with
  | nil =>
    constructor
    · exact fun h => ⟨prevId, rfl, h⟩
    · rintro ⟨midId, rfl, h⟩
      exact h
  | cons x xs ih =>
    constructor
    · rintro ⟨id, block, hblock, hprev, hc, h⟩
      obtain ⟨midId, hxs, hys⟩ := ih.mp h
      exact ⟨midId, ⟨id, block, hblock, hprev, hc, hxs⟩, hys⟩
    · rintro ⟨midId, ⟨id, block, hblock, hprev, hc, hxs⟩, hys⟩
      exact ⟨id, block, hblock, hprev, hc, ih.mpr ⟨midId, hxs, hys⟩⟩

/-- The last block is the canonical one at the last height. -/
theorem Linked.index (h : Linked s expectedGenesisId check (heightsFrom 0 height) prevId lastId) :
    s.heightIndex.lookup height = some lastId := by
  rw [heightsFrom_concat, linked_append] at h
  obtain ⟨_, -, id, block, hblock, -, -, rfl⟩ := h
  exact hblock.index

/-- A chain that is linked from the first block on is linked behind some block just if that is the
canonical one at its height. -/
theorem Linked.after (h : Linked s expectedGenesisId check (heightsFrom 0 tipHeight) firstId lastId)
    (hheight : height ≤ tipHeight) :
    Linked s expectedGenesisId check (heightsFrom (height.toNat + 1) tipHeight) id lastId ↔
      s.heightIndex.lookup height = some id := by
  rw [heightsFrom_split hheight, linked_append] at h
  obtain ⟨midId, hfirst, hsecond⟩ := h
  rw [hfirst.index, Option.some.injEq]
  constructor
  · exact fun h' => hsecond.prev_eq h'
  · rintro rfl
    exact hsecond

end

end Linked

/-! ## The walk -/

/-- The check of the walk on a block. -/
def Walked (s : Storage) (proven : Bool) (height : UInt64) (block : Block) : Prop :=
  checkWalked s proven height block = .ok ()

theorem walk_eq_ok : heights.foldlM (walkBlock s expectedGenesisId proven) (prevId, work) = .ok (lastId, work') ↔
      Linked s expectedGenesisId (Walked s proven) heights prevId lastId ∧
        work' = workOver s heights work := by
  induction heights generalizing prevId work with
  | nil =>
    simp only [List.foldlM_nil, pure, Except.pure, Except.ok.injEq, Prod.mk.injEq, Linked, workOver, List.foldl_nil]
    exact and_congr_right fun _ => eq_comm
  | cons height heights ih =>
    rw [List.foldlM_cons, bind_eq_ok]
    constructor
    · rintro ⟨⟨id, workAt⟩, hround, hrest⟩
      obtain ⟨block, hblock, hprev, hcheck, rfl⟩ := walkBlock_eq_ok.mp hround
      obtain ⟨hlinked, hwork⟩ := ih.mp hrest
      exact ⟨⟨id, block, hblock, hprev, hcheck, hlinked⟩, hwork⟩
    · rintro ⟨⟨id, block, hblock, hprev, hcheck, hlinked⟩, hwork⟩
      exact ⟨_, walkBlock_eq_ok.mpr ⟨block, hblock, hprev, hcheck, rfl⟩, ih.mpr ⟨hlinked, hwork⟩⟩

theorem walkChain_eq_ok : walkChain s expectedGenesisId proven start tipId tipHeight = .ok work ↔
      Linked s expectedGenesisId (Walked s proven) (heightsFrom start.height tipHeight) start.prevId
          tipId ∧
        work = workOver s (heightsFrom start.height tipHeight) start.work := by
  rw [← walk_eq_ok]
  constructor
  · intro h
    obtain ⟨⟨lastId, work'⟩, hwalk, h⟩ := bind_eq_ok.mp h
    obtain ⟨⟨⟩, hlast, h⟩ := bind_eq_ok.mp h
    cases h
    obtain rfl : lastId = tipId := not_not.mp (failIf_eq_ok.mp hlast)
    exact hwalk
  · intro h
    exact bind_eq_ok.mpr ⟨_, h, failIf_then (not_not.mpr rfl) rfl⟩

end Walk

end Exfer.Proof
