import Exfer.Proof.Node.Tips
import Exfer.Spec.PeerTip

/-!
# Verified tips

A validation that succeeds has an anchor that it trusts (`AnchorOk`) and headers that follow each
other from there (`ForwardInv`): the forward loop keeps that, whatever the peer sends, because the
overlay only has headers under their own ids. So the tip is real where the claim lies above the
anchor. Where it does not, the claimed id is returned without having been compared with anything.
-/

namespace Exfer.Proof

open Lib Impl Spec

variable [Crypto] {h header : BlockHeader} {work : Work} {id : Hash256} {n : Nat} {turn : TipTurn}
  {headers : List BlockHeader} {claim : UInt64} {validated : ValidatedTip}

/-! ## Headers and their work -/

section Headers

theorem cumulativeWork_mono (hST : S ⊆ T) (hwork : CumulativeWork S h work) : CumulativeWork T h work := by
  induction hwork with
  | first hmem hheight => exact .first (hST hmem) hheight
  | child _ hmem hprev hheight ih => exact .child ih (hST hmem) hprev hheight

variable [Network]

/-- Headers that follow each other have growing heights. -/
theorem follows_height (h : Relation.ReflTransGen (Follows S) a b) : a = b ∨ a.height.toNat < b.height.toNat := by
  induction h with
  | refl => exact .inl rfl
  | tail _ hstep ih =>
    have hheight := hstep.height
    rcases ih with rfl | hlt <;> exact .inr (by omega)

end Headers

/-! ## The difficulty rule -/

section Difficulty

variable {S : Set BlockHeader} {getHeader : Nat → Hash256 → Except String (Option BlockHeader)}
  {i : Nat}

omit [Crypto] in
theorem ancestorHeader_ok (hread : ancestorHeader getHeader i id = .ok h) : getHeader i id = .ok (some h) := by
  unfold ancestorHeader at hread
  split at hread <;> cases hread
  rename_i heq
  exact heq

section

variable (hget : ∀ i id h, getHeader i id = .ok (some h) → h ∈ S ∧ h.blockId = id)
include hget

/-- The walk goes to ancestors: where the headers called `id` are ancestors of `prev`, so are those
at the end of the walk, as many steps further. -/
theorem walkBack_ancestor (hid : ∀ h ∈ S, h.blockId = id → Ancestor BlockHeader.blockId BlockHeader.prevBlockId S prev k
      h) (hwalk : walkBack getHeader i n id = .ok id') : ∀ h ∈ S, h.blockId = id' →
      Ancestor BlockHeader.blockId BlockHeader.prevBlockId S prev (k + n) h := by
  induction n generalizing i k id with
  | zero =>
    cases hwalk
    exact hid
  | succ n ih =>
    obtain ⟨h, hread, hrest⟩ := bind_eq_ok.mp hwalk
    obtain ⟨hmem, hname⟩ := hget _ _ _ (ancestorHeader_ok hread)
    have hnext := ih (k := k + 1) (fun p hp hpid => .parent (hid h hmem hname) hp hpid) hrest
    rwa [show k + 1 + n = k + (n + 1) by omega] at hnext

/-- Where the reader returns headers of `S` under their ids, the target is that of the rule. -/
theorem expectedDifficulty_rule [Network]
    (h : expectedDifficulty getHeader prev height = .ok target) : DifficultyRule S prev height target := by
  unfold expectedDifficulty at h
  split at h
  · rename_i hzero
    cases h
    exact .first hzero
  rename_i hpos
  obtain ⟨parent, hread, h⟩ := bind_eq_ok.mp h
  obtain ⟨hparent, hprev⟩ := hget _ _ _ (ancestorHeader_ok hread)
  split at h
  · rename_i hheight
    cases h
    exact .parent hheight (.self hparent hprev)
  · rename_i hheight
    obtain ⟨startId, hwalk, h⟩ := bind_eq_ok.mp h
    obtain ⟨start, hstart, h⟩ := bind_eq_ok.mp h
    obtain ⟨hmem, hname⟩ := hget _ _ _ (ancestorHeader_ok hstart)
    have hancestor := walkBack_ancestor hget (k := 0) (fun _ hh hid => .self hh hid) hwalk
      start hmem hname
    cases h
    exact .retarget hpos (not_not.mp hheight) (.self hparent hprev) hancestor

end

end Difficulty

/-! ## What the reads return -/

section Views

variable [Network] {known : List Block} {ctx : TipContext} {fault : Option String} {read : TipRead}

omit [Crypto] [Network] in
theorem getBlockIdByHeight_ok {s : Storage} {height : UInt64} {id : Option Hash256}
    (h : s.getBlockIdByHeight fault height = .ok id) : s.heightIndex.lookup height = id :=
  (answer_eq_ok.mp h).2

omit [Crypto] [Network] in
theorem readRow_ok (h : readRow row failed missing = .ok a) : row = .ok (some a) := by
  unfold readRow at h
  split at h <;> cases h
  rfl

variable (hsees : SeesNodes known ctx) (hids : BlockIdsDistinct known)
include hsees hids

theorem seesNodes_tipInv (read : TipRead) :
    ∃ chain node, TipInv known chain node ∧ ctx.storage read = node.storage := by
  obtain ⟨genesis, start, calls, node, hstart, hrun, hknown, hstorage⟩ := hsees read
  obtain ⟨chain, hinv⟩ := tipInv_run hstart hids hrun hknown
  exact ⟨chain, node, hinv, hstorage⟩

/-- A row of the height index names a known block at that height. -/
theorem seesNodes_index (hread : (ctx.storage read).getBlockIdByHeight fault height = .ok (some id)) :
    ∃ block ∈ known, block.header.height = height ∧ block.header.blockId = id := by
  obtain ⟨chain, node, hinv, hstorage⟩ := seesNodes_tipInv hsees hids read
  have hrow := getBlockIdByHeight_ok hread
  rw [hstorage] at hrow
  obtain ⟨block, hmem, hheight, hid⟩ := (hinv.db.tables.index height id).mp hrow
  exact ⟨block, (hinv.db.stored.blocks _ _ (hinv.db.tables.body block hmem)).1, hheight, hid⟩

/-- A row of the header table is the header of a known block, under its id. -/
theorem seesNodes_header (hread : (ctx.storage read).getHeader fault id = .ok (some header)) :
    header ∈ headersOf known ∧ header.blockId = id := by
  obtain ⟨chain, node, hinv, hstorage⟩ := seesNodes_tipInv hsees hids read
  have hrow := (answer_eq_ok.mp hread).2
  rw [hstorage] at hrow
  obtain ⟨block, hmem, hheader, hid⟩ := hinv.db.stored.headers id header hrow
  exact ⟨⟨block, hmem, hheader⟩, hid⟩

/-- A row of the work table is the cumulative work of a header with that id. -/
theorem seesNodes_work (hread : (ctx.storage read).getCumulativeWork fault id = .ok (some work)) :
    ∃ header, header.blockId = id ∧ CumulativeWork (headersOf known) header work := by
  obtain ⟨chain, node, hinv, hstorage⟩ := seesNodes_tipInv hsees hids read
  have hrow := (answer_eq_ok.mp hread).2
  rw [hstorage] at hrow
  exact hinv.works id work hrow

end Views

/-! ## Anchors -/

/-- The anchor is a header of `S`, described as it is, and its work is the cumulative work. -/
structure AnchorOk (S : Set BlockHeader) (ctx : TipContext) (anchor : TipAnchor) : Prop where
  mem : anchor.header ∈ S
  id : anchor.header.blockId = anchor.blockId
  height : anchor.header.height = anchor.height
  work : ∀ work, ctx.workOf anchor = .ok work → CumulativeWork S anchor.header work

/-- What the node reads are headers of `S`. -/
structure SeesIn [Network] (S : Set BlockHeader) (known : List Block) (ctx : TipContext) :
    Prop where
  ids : BlockIdsDistinct known
  sees : SeesNodes known ctx
  known : headersOf known ⊆ S

section Anchors

variable {S : Set BlockHeader} {ctx : TipContext} {deadline : Instant} {anchor : TipAnchor}
  {s : AncestorSearch}

omit [Crypto] in
theorem fetch_ok (h : turn.fetch request = .ok batch) : turn.reply = .headers batch := by
  obtain ⟨-, -, hreply⟩ := bind_eq_ok.mp h
  cases hr : turn.reply <;> rw [hr] at hreply <;> cases hreply
  rfl

theorem checkpointAnchor_ok (h : checkpointAnchor turn = .ok anchor) :
    anchor = ⟨assumeValidHeight, assumeValidHash, anchor.header, true⟩ ∧
      anchor.header ∈ replyHeaders turn.reply ∧ anchor.header.height = assumeValidHeight ∧
      anchor.header.blockId = assumeValidHash := by
  obtain ⟨hdrs, hfetch, h⟩ := bind_eq_ok.mp h
  rw [fetch_ok hfetch]
  cases hdrs with
  | nil => cases h
  | cons hdr others =>
    obtain ⟨-, -, h⟩ := bind_eq_ok.mp h
    obtain ⟨_, hheight, h⟩ := bind_eq_ok.mp h
    obtain ⟨_, hid, h⟩ := bind_eq_ok.mp h
    have hatHeight := not_not.mp (failIf_eq_ok.mp hheight)
    have hnamed := not_not.mp (failIf_eq_ok.mp hid)
    cases h
    exact ⟨by rw [hnamed], List.mem_cons_self, hatHeight, hnamed⟩

section

omit [Crypto]

/-- The work of the checkpoint is the constant, while it is trusted. -/
theorem workOf_checkpoint (h : ctx.workOf ⟨assumeValidHeight, assumeValidHash, header, true⟩ = .ok work) :
    ctx.stillTrusted = true ∧ work = assumeValidCumulativeWork := by
  unfold TipContext.workOf anchorWork at h
  rw [if_pos rfl] at h
  split at h <;> cases h
  rename_i htrusted
  exact ⟨htrusted, rfl⟩

/-- The work of a block of the node's own is read. -/
theorem workOf_own (h : ctx.workOf ⟨height, id, header, false⟩ = .ok work) :
    (ctx.storage .work).getCumulativeWork (ctx.fault .work) id = .ok (some work) := by
  unfold TipContext.workOf anchorWork at h
  exact readRow_ok h

theorem readAnchor_ok (h : ctx.readAnchor height = .ok anchor) :
    anchor = ⟨height, anchor.blockId, anchor.header, false⟩ ∧
      (ctx.storage .anchorId).getBlockIdByHeight (ctx.fault .anchorId) height =
        .ok (some anchor.blockId) ∧
      (ctx.storage .anchorHeader).getHeader (ctx.fault .anchorHeader) anchor.blockId =
        .ok (some anchor.header) := by
  obtain ⟨id, hid, h⟩ := bind_eq_ok.mp h
  obtain ⟨header, hheader, h⟩ := bind_eq_ok.mp h
  cases h
  exact ⟨rfl, readRow_ok hid, readRow_ok hheader⟩

end

theorem interpretAncestorProbeResponse_eq_some :
    interpretAncestorProbeResponse headers height ourId = .ok (some same) ↔
      ∃ first others our, headers = first :: others ∧ first.height = height ∧ ourId = some our ∧
        (our == first.blockId) = same := by
  cases headers with
  | nil => exact ⟨nofun, nofun⟩
  | cons first others =>
    by_cases hheight : first.height = height
    · rw [interpretAncestorProbeResponse, if_neg (not_not.mpr hheight), Except.ok.injEq, Option.map_eq_some_iff]
      constructor
      · rintro ⟨our, hour, hsame⟩
        exact ⟨first, others, our, rfl, hheight, hour, hsame⟩
      · rintro ⟨first', others', our, hheaders, -, hour, hsame⟩
        cases hheaders
        exact ⟨our, hour, hsame⟩
    · rw [interpretAncestorProbeResponse, if_pos hheight]
      constructor
      · exact nofun
      · rintro ⟨first', others', our, hheaders, hheight', -⟩
        cases hheaders
        exact absurd hheight' hheight

/-- A probe is answered with a header at its height, and compares it with a block id it has read. -/
theorem probe_eq_ok : ctx.probe n turn height noData = .ok same ↔
      ∃ first others our, turn.fetch (buildGetHeaders height 1) = .ok (first :: others) ∧
        first.height = height ∧
        (ctx.storage (.probe n)).getBlockIdByHeight (ctx.fault (.probe n)) height =
          .ok (some our) ∧ (our == first.blockId) = same := by
  unfold TipContext.probe
  rw [bind_eq_ok]
  dsimp only
  constructor
  · rintro ⟨hdrs, hfetch, h⟩
    split at h <;> cases h
    rename_i hinterpret
    obtain ⟨first, others, our, rfl, hheight, hour, hsame⟩ :=
      interpretAncestorProbeResponse_eq_some.mp hinterpret
    have hread := toOption_eq_some.mp (Option.join_eq_some_iff.mp hour)
    exact ⟨first, others, our, hfetch, hheight, hread, hsame⟩
  · rintro ⟨first, others, our, hfetch, hheight, hread, hsame⟩
    refine ⟨first :: others, hfetch, ?_⟩
    have hinterpret : interpretAncestorProbeResponse (first :: others) height (some our) =
        .ok (some same) :=
      interpretAncestorProbeResponse_eq_some.mpr ⟨first, others, our, rfl, hheight, rfl, hsame⟩
    rw [hread]
    simp only [Except.toOption, Option.join_some, hinterpret]

/-! ### The search -/

omit [Crypto] in
theorem mid_bounds (h : s.Going) : s.lo.toNat < s.mid.toNat ∧ s.mid.toNat ≤ s.hi.toNat := by
  have hlt : s.lo.toNat < s.hi.toNat := UInt64.lt_iff_toNat_lt.mp h
  have hhi := s.hi.toNat_lt
  have hsub : (s.hi - s.lo).toNat = s.hi.toNat - s.lo.toNat :=
    UInt64.toNat_sub_of_le _ _ (UInt64.le_iff_toNat_le.mpr hlt.le)
  have hmid : s.mid.toNat = s.lo.toNat +
      ((s.hi.toNat - s.lo.toNat) / 2 + (s.hi.toNat - s.lo.toNat) % 2) := by
    unfold AncestorSearch.mid
    rw [UInt64.toNat_add, UInt64.toNat_add, UInt64.toNat_div, UInt64.toNat_mod, hsub]
    have htwo : (2 : UInt64).toNat = 2 := rfl
    rw [htwo]
    omega
  omega

/-- The search stays at or below the height it starts from. -/
theorem searchRound_bounds (h : s.lo.toNat ≤ s.hi.toNat ∧ s.hi.toNat ≤ top) (hgoing : s.Going)
    (hround : ctx.searchRound deadline turn s = .ok s') : s'.lo.toNat ≤ s'.hi.toNat ∧ s'.hi.toNat ≤ top := by
  obtain ⟨hlo, hhi⟩ := mid_bounds hgoing
  obtain ⟨-, -, hround⟩ := bind_eq_ok.mp hround
  obtain ⟨same, -, hround⟩ := bind_eq_ok.mp hround
  have hpos : s.mid ≠ 0 := by
    intro hzero
    rw [hzero] at hlo
    exact absurd hlo (Nat.not_lt_zero _)
  have hdown : (s.mid - 1).toNat = s.mid.toNat - 1 :=
    UInt64.toNat_sub_of_le _ _ (UInt64.le_iff_toNat_le.mpr (show 1 ≤ s.mid.toNat by omega))
  cases hround
  cases same with
  | true => exact ⟨hhi, h.2⟩
  | false =>
    rw [if_neg nofun, if_neg hpos]
    show s.lo.toNat ≤ (s.mid - 1).toNat ∧ (s.mid - 1).toNat ≤ top
    omega

omit [Crypto] in
/-- A claim at or below the height that is probed first is what is probed. -/
theorem clamp_of_le (h : claim ≤ min ours claim) : claim ≤ ours ∧ min ours claim = claim := by
  have hmin : min ours claim = if ours ≤ claim then ours else claim := rfl
  rw [hmin] at h ⊢
  split at h
  · rename_i hours
    rw [if_pos hours]
    exact ⟨h, UInt64.le_antisymm hours h⟩
  · rename_i hours
    rw [if_neg hours]
    exact ⟨UInt64.le_of_lt (UInt64.not_le.mp hours), rfl⟩

/-- The common ancestor is not above the claim or the node's own tip, and the first probe has read
a block id. -/
theorem findAncestor_ok (h : Yields (ctx.findAncestor deadline claimHeight turns) (height, rest)) :
    height ≤ min ctx.ourHeightStart claimHeight ∧ rest <:+ turns ∧
      ∃ id, (ctx.storage (.probe 0)).getBlockIdByHeight (ctx.fault (.probe 0))
        (min ctx.ourHeightStart claimHeight) = .ok (some id) := by
  obtain ⟨⟨turn, turns'⟩, hnext, hprobed⟩ := yields_bind.mp h
  obtain rfl := yields_nextTurn.mp hnext
  obtain ⟨same, hprobe, hsearched⟩ := yields_bind.mp hprobed
  obtain ⟨-, -, our, -, -, hread, -⟩ := probe_eq_ok.mp (yields_atOnce.mp hprobe)
  split at hsearched
  · obtain ⟨rfl, rfl⟩ := Prod.mk.inj (yields_pure.mp hsearched)
    exact ⟨UInt64.le_refl _, List.suffix_cons .., our, hread⟩
  · obtain ⟨⟨s, turns''⟩, hsearch, hfound⟩ := yields_bind.mp hsearched
    obtain ⟨rfl, rfl⟩ := Prod.mk.inj (yields_pure.mp hfound)
    obtain ⟨hbounds, -, hsuffix⟩ := rounds_invariant
      (I := fun s => s.lo.toNat ≤ s.hi.toNat ∧
        s.hi.toNat ≤ (min ctx.ourHeightStart claimHeight).toNat)
      (fun _ _ _ _ hs hgoing hround => searchRound_bounds hs hgoing hround)
      ⟨Nat.zero_le _, Nat.le_refl _⟩ hsearch
    exact ⟨UInt64.le_iff_toNat_le.mpr (hbounds.1.trans hbounds.2), hsuffix.trans (List.suffix_cons ..), our, hread⟩

variable [Network]

omit [Network] in
theorem anchorOk_checkpoint (hwork : CheckpointWork S) (hmem : h ∈ S)
    (hheight : h.height = assumeValidHeight) (hid : h.blockId = assumeValidHash) :
    AnchorOk S ctx ⟨assumeValidHeight, assumeValidHash, h, true⟩ where
  mem := hmem
  id := hid
  height := hheight
  work work hread := by
    obtain ⟨-, rfl⟩ := workOf_checkpoint hread
    exact hwork h hmem hheight hid

theorem anchorOk_own (hsees : SeesIn S known ctx)
    (hid : (ctx.storage .anchorId).getBlockIdByHeight (ctx.fault .anchorId) height = .ok (some id))
    (hheader : (ctx.storage .anchorHeader).getHeader (ctx.fault .anchorHeader) id = .ok (some
      header)) : AnchorOk S ctx ⟨height, id, header, false⟩ := by
  obtain ⟨hids, hnodes, hsubset⟩ := hsees
  obtain ⟨hmem, hname⟩ := seesNodes_header hnodes hids hheader
  obtain ⟨block, hblock, hheight, hblockId⟩ := seesNodes_index hnodes hids hid
  -- the index and the header table are read at different times, but speak of one header
  obtain rfl := headersOf_injOn hids hmem ⟨block, hblock, rfl⟩ (hname.trans hblockId.symm)
  refine ⟨hsubset hmem, hname, hheight, fun work hread => ?_⟩
  obtain ⟨header, hheaderId, hwork⟩ := seesNodes_work hnodes hids (workOf_own hread)
  obtain rfl := headersOf_injOn hids (cumulativeWork_mem hwork) hmem
    (hheaderId.trans hname.symm)
  exact cumulativeWork_mono hsubset hwork

/-- The anchor is one to trust; and if it is not below the claim, the claim is at its mercy. -/
theorem selectAnchor_ok (hsees : SeesIn S known ctx) (hcheckpoint : CheckpointWork S)
    (hreplied : ∀ h ∈ replied turns, h ∈ S) (hslot : ctx.slotAvailable = true)
    (h : Yields (ctx.selectAnchor deadline claimHeight turns) (anchor, rest)) :
    AnchorOk S ctx anchor ∧ rest <:+ turns ∧
      ∀ work, ctx.workOf anchor = .ok work → claimHeight ≤ anchor.height →
        AnchorsClaim S ctx claimHeight anchor.height anchor.blockId := by
  unfold TipContext.selectAnchor ValidationRegime.select at h
  by_cases hfresh : ctx.ourHeightStart = 0
  · rw [if_pos hfresh] at h
    dsimp only at h
    split at h
    · rename_i htrust
      obtain ⟨⟨turn, turns'⟩, hnext, hfetched⟩ := yields_bind.mp h
      obtain ⟨anchor', hanchor, hdone⟩ := yields_bind.mp hfetched
      obtain ⟨rfl, rfl⟩ := Prod.mk.inj (yields_pure.mp hdone)
      obtain rfl := yields_nextTurn.mp hnext
      obtain ⟨heq, hmem, hheight, hid⟩ := checkpointAnchor_ok (yields_atOnce.mp hanchor)
      have hS := hreplied _ (List.mem_flatMap.mpr ⟨turn, List.mem_cons_self, hmem⟩)
      generalize anchor'.header = header at heq hheight hid hS
      subst heq
      refine ⟨anchorOk_checkpoint hcheckpoint hS hheight hid, List.suffix_cons .., fun work hwork hclaim => ?_⟩
      exact .checkpoint hslot hfresh htrust.1 htrust.2 (workOf_checkpoint hwork).1 hS hheight hid
        hclaim
    · cases yields_atOnce.mp h
  · rw [if_neg hfresh] at h
    obtain ⟨⟨height, turns'⟩, hfind, hread⟩ := yields_bind.mp h
    obtain ⟨anchor', hanchor, hdone⟩ := yields_bind.mp hread
    obtain ⟨rfl, rfl⟩ := Prod.mk.inj (yields_pure.mp hdone)
    obtain ⟨hheight, hsuffix, probed, hprobe⟩ := findAncestor_ok hfind
    obtain ⟨heq, hid, hheader⟩ := readAnchor_ok (yields_atOnce.mp hanchor)
    generalize anchor'.header = header at heq hheader
    generalize anchor'.blockId = id at heq hid hheader
    subst heq
    refine ⟨anchorOk_own hsees hid hheader, hsuffix, fun work hwork hclaim => ?_⟩
    -- the ancestor is at the height of the claim, and so was the first probe
    obtain ⟨hours, hclamp⟩ := clamp_of_le (UInt64.le_trans hclaim hheight)
    rw [hclamp] at hheight hprobe
    obtain rfl := UInt64.le_antisymm hheight hclaim
    exact .own hslot hfresh hours hprobe hid hheader (workOf_own hwork)

end Anchors

/-! ## The forward loop -/

/-- The headers of the overlay are headers of `S` under their ids. -/
def OverlayOk (S : Set BlockHeader) (overlay : HeaderOverlay) : Prop :=
  ∀ id h, overlay.lookup id = some h → h ∈ S ∧ h.blockId = id

section Overlay

variable {S : Set BlockHeader}

theorem overlayOk_insert (h : OverlayOk S overlay) (hmem : header ∈ S) :
    OverlayOk S (overlay.insertHeader header) := by
  intro id h' hlookup
  unfold HeaderOverlay.insertHeader at hlookup
  rw [Map.lookup_insert_eq] at hlookup
  split at hlookup
  · rename_i hid
    cases hlookup
    exact ⟨hmem, hid.symm⟩
  · exact h id h' hlookup

theorem overlayOk_insertAll (h : OverlayOk S overlay) (hmem : ∀ header ∈ headers, header ∈ S) :
    OverlayOk S (headers.foldl HeaderOverlay.insertHeader overlay) := by
  induction headers generalizing overlay with
  | nil => exact h
  | cons header headers ih =>
    obtain ⟨hheader, hheaders⟩ := List.forall_mem_cons.mp hmem
    exact ih (overlayOk_insert h hheader) hheaders

theorem overlayOk_single (hmem : header ∈ S) : OverlayOk S (HeaderOverlay.insertHeader ∅ header) :=
  overlayOk_insert (fun id h hlookup => by rw [Finmap.lookup_empty] at hlookup; cases hlookup) hmem

end Overlay

/-- The headers checked so far follow each other from the anchor, and the loop stands after the last
of them. -/
structure ForwardInv (S : Set BlockHeader) [Network] (anchor : BlockHeader) (s : Forward) :
    Prop where
  overlay : OverlayOk S s.overlay
  chain : ∃ last, Relation.ReflTransGen (Follows S) anchor last ∧ last.blockId = s.lastBlockId ∧
    s.nextHeight.toNat = last.height.toNat + 1 ∧
    ∀ work, CumulativeWork S anchor work →
      CumulativeWork S last (sumForwardWork work s.validated)

section Forward

variable [Network] {S : Set BlockHeader} {known : List Block} {ctx : TipContext}
  {turns : List TipTurn} {deadline : Instant} {anchor : BlockHeader} {overlay : HeaderOverlay}
  {s s' : Forward}

omit [Crypto] [Network] in
theorem toNat_next {n : UInt64} (h : n.toNat + 1 < 2 ^ 64) : (n + 1).toNat = n.toNat + 1 := by
  rw [UInt64.toNat_add]
  exact Nat.mod_eq_of_lt h

theorem validateOneForwardHeader_ok
    (h : ctx.validateOneForwardHeader overlay parentId height header = .ok overlay') :
    header.prevBlockId = parentId ∧ header.height = height ∧
      ctx.expectedDifficultyOverlay overlay header.prevBlockId header.height =
        .ok header.difficultyTarget ∧
      verifyPow header = some true ∧ overlay' = overlay.insertHeader header := by
  obtain ⟨_, hprev, h⟩ := bind_eq_ok.mp h
  obtain ⟨_, hheight, h⟩ := bind_eq_ok.mp h
  split at h
  · cases h
  rename_i target htarget
  obtain ⟨_, hsame, h⟩ := bind_eq_ok.mp h
  split at h
  · cases h
  rename_i powOk hpow
  obtain ⟨_, hok, h⟩ := bind_eq_ok.mp h
  have hpowOk : powOk = true := by simpa using failIf_eq_ok.mp hok
  cases h
  rw [not_not.mp (failIf_eq_ok.mp hsame)]
  exact ⟨not_not.mp (failIf_eq_ok.mp hprev), not_not.mp (failIf_eq_ok.mp hheight), htarget, hpowOk ▸ hpow, rfl⟩

/-- The overlay and the storage together return headers of `S` under their ids. -/
theorem overlayHeader_ok (hsees : SeesIn S known ctx) (hoverlay : OverlayOk S overlay) (height : UInt64) :
    ∀ i id h, ctx.overlayHeader overlay height i id = .ok (some h) → h ∈ S ∧ h.blockId = id := by
  intro i id h hread
  unfold TipContext.overlayHeader at hread
  split at hread
  · rename_i hlookup
    cases hread
    exact hoverlay id _ hlookup
  · obtain ⟨hmem, hid⟩ := seesNodes_header hsees.sees hsees.ids hread
    exact ⟨hsees.known hmem, hid⟩

/-- A header that passes is the next of the chain. -/
theorem validateBatch_ok (hsees : SeesIn S known ctx) (hbatch : ∀ h ∈ batch, h ∈ S)
    (hfits : s.nextHeight.toNat + batch.length < 2 ^ 64) (hinv : ForwardInv S anchor s)
    (h : ctx.validateBatch checkedAt batch s = .ok s') :
    ForwardInv S anchor s' ∧ s'.nextHeight.toNat = s.nextHeight.toNat + batch.length := by
  induction batch generalizing s with
  | nil =>
    cases h
    exact ⟨hinv, rfl⟩
  | cons header batch ih =>
    obtain ⟨hmem, hbatch⟩ := List.forall_mem_cons.mp hbatch
    obtain ⟨overlay, hheader, h⟩ := bind_eq_ok.mp h
    obtain ⟨hprev, hheight, htarget, hpow, rfl⟩ := validateOneForwardHeader_ok hheader
    obtain ⟨last, hchain, hlast, hnext, hwork⟩ := hinv.chain
    rw [List.length_cons] at hfits
    have hstep := toNat_next (n := s.nextHeight) (by omega)
    have hup : header.height.toNat = last.height.toNat + 1 := by rw [hheight, hnext]
    have hrule : DifficultyRule S header.prevBlockId header.height header.difficultyTarget :=
      expectedDifficulty_rule (overlayHeader_ok hsees hinv.overlay header.height) htarget
    have hfollows : Follows S last header := ⟨hmem, hprev.trans hlast.symm, hup, hrule, hpow⟩
    obtain ⟨hinv', hnext'⟩ := ih hbatch (by rw [hstep]; omega)
      ⟨overlayOk_insert hinv.overlay hmem, header, hchain.tail hfollows, rfl,
        by rw [hstep, hheight], fun work hanchor => by
          rw [sumForwardWork, List.foldl_append]
          exact .child (hwork work hanchor) hmem (hprev.trans hlast.symm) hup⟩ h
    exact ⟨hinv', by rw [hnext', hstep, List.length_cons]; omega⟩

/-- A round leaves the loop at most one above the claim. -/
theorem forwardRound_ok (hsees : SeesIn S known ctx) (hturn : ∀ h ∈ replyHeaders turn.reply, h ∈ S)
    (hclaim : claimHeight.toNat + 1 < 2 ^ 64) (hinv : ForwardInv S anchor s) (hgoing : s.Going claimHeight)
    (h : ctx.forwardRound deadline regime claimHeight turn s = .ok s') :
    ForwardInv S anchor s' ∧ s'.nextHeight.toNat ≤ claimHeight.toNat + 1 := by
  obtain ⟨_, -, h⟩ := bind_eq_ok.mp h
  obtain ⟨_, -, h⟩ := bind_eq_ok.mp h
  obtain ⟨batch, hfetch, h⟩ := bind_eq_ok.mp h
  rw [fetch_ok hfetch] at hturn
  have hle : s.nextHeight.toNat ≤ claimHeight.toNat := UInt64.le_iff_toNat_le.mp hgoing
  have hroom : (claimHeight - s.nextHeight + 1).toNat =
      claimHeight.toNat - s.nextHeight.toNat + 1 := by
    rw [toNat_next, UInt64.toNat_sub_of_le _ _ hgoing]
    rw [UInt64.toNat_sub_of_le _ _ hgoing]
    omega
  cases batch with
  | nil => cases h
  | cons first others =>
    obtain ⟨_, hshape, h⟩ := bind_eq_ok.mp h
    have hlength := not_lt.mp (not_or.mp (failIf_eq_ok.mp hshape)).2
    -- the request is for no more headers than are left, also where the cast cuts the number
    have hcount : (min (claimHeight - s.nextHeight + 1).toUInt32
        (UInt32.ofNat maxGetblocksItems)).toNat ≤ claimHeight.toNat - s.nextHeight.toNat + 1 := by
      have hcut : (claimHeight - s.nextHeight + 1).toUInt32.toNat ≤
          (claimHeight - s.nextHeight + 1).toNat := Nat.mod_le _ _
      refine le_trans ?_ (hcut.trans_eq hroom)
      show (if _ ≤ _ then _ else _ : UInt32).toNat ≤ _
      split
      · exact Nat.le_refl _
      · rename_i hlarge
        exact (UInt32.lt_iff_toNat_lt.mp (UInt32.not_le.mp hlarge)).le
    have hbatch : ∀ h ∈ first :: others, h ∈ S := hturn
    obtain ⟨hinv', hnext⟩ := validateBatch_ok hsees hbatch (by omega) hinv h
    exact ⟨hinv', by omega⟩

omit [Crypto] [Network] in
/-- Headers of the lookback are headers that the peer has sent. -/
theorem lookbackRound_ok (hturn : ∀ h ∈ replyHeaders turn.reply, h ∈ S) {s s' : Lookback}
    (hs : ∀ h ∈ s.collected, h ∈ S) (h : lookbackRound deadline turn s = .ok s') : ∀ h ∈ s'.collected, h ∈ S := by
  obtain ⟨_, -, h⟩ := bind_eq_ok.mp h
  obtain ⟨batch, hfetch, h⟩ := bind_eq_ok.mp h
  rw [fetch_ok hfetch] at hturn
  cases batch with
  | nil => cases h
  | cons first others =>
    obtain ⟨_, -, h⟩ := bind_eq_ok.mp h
    cases h
    exact List.forall_mem_append.mpr ⟨hs, hturn⟩

omit [Crypto] [Network] in
theorem replyHeaders_mem (hreplied : ∀ h ∈ replied turns, h ∈ S) :
    ∀ turn ∈ turns, ∀ h ∈ replyHeaders turn.reply, h ∈ S :=
  fun turn hturn h hh => hreplied h (List.mem_flatMap.mpr ⟨turn, hturn, hh⟩)

omit [Network] in
theorem fetchLookback_ok (hreplied : ∀ turn ∈ turns, ∀ h ∈ replyHeaders turn.reply, h ∈ S)
    (hoverlay : OverlayOk S overlay) (h : Yields (fetchLookback deadline anchor overlay turns) (overlay', rest)) :
    OverlayOk S overlay' ∧ rest <:+ turns := by
  obtain ⟨⟨s, turns'⟩, hloop, h⟩ := yields_bind.mp h
  obtain ⟨_, -, h⟩ := yields_bind.mp h
  obtain ⟨_, -, h⟩ := yields_bind.mp h
  obtain ⟨rfl, rfl⟩ := Prod.mk.inj (yields_pure.mp h)
  obtain ⟨hcollected, -, hsuffix⟩ := rounds_invariant
    (I := fun s : Lookback => ∀ h ∈ s.collected, h ∈ S)
    (fun turn hturn _ _ hs _ hround => lookbackRound_ok (hreplied turn hturn) hs hround)
    (fun _ h => absurd h List.not_mem_nil) hloop
  exact ⟨overlayOk_insertAll hoverlay hcollected, hsuffix⟩

/-- A claim above the anchor that is verified is the end of a chain from the anchor. -/
theorem validateForward_ok (hsees : SeesIn S known ctx) {anchor : TipAnchor}
    (hanchor : AnchorOk S ctx anchor) (habove : ¬ claimHeight ≤ anchor.height) {claimBlockId : Hash256}
    (hreplied : ∀ turn ∈ turns, ∀ h ∈ replyHeaders turn.reply, h ∈ S)
    (h : Yields (ctx.validateForward deadline claimHeight claimBlockId anchor turns) validated) :
    RealTip S validated.tip := by
  obtain ⟨⟨overlay, turns'⟩, hlookback, h⟩ := yields_bind.mp h
  obtain ⟨⟨s, turns''⟩, hloop, h⟩ := yields_bind.mp h
  obtain ⟨_, hclaimed, h⟩ := yields_bind.mp h
  obtain ⟨work, hwork, h⟩ := yields_bind.mp h
  obtain ⟨_, -, h⟩ := yields_bind.mp h
  obtain rfl := yields_pure.mp h
  have hend := not_not.mp (failIf_eq_ok.mp (yields_atOnce.mp hclaimed))
  have hbelow : anchor.height.toNat < claimHeight.toNat :=
    UInt64.lt_iff_toNat_lt.mp (UInt64.not_le.mp habove)
  have hclaim64 := claimHeight.toNat_lt
  obtain ⟨hoverlay, hsuffix⟩ : OverlayOk S overlay ∧ turns' <:+ turns := by
    unfold startOverlay at hlookback
    split at hlookback
    · exact fetchLookback_ok hreplied (overlayOk_single hanchor.mem) hlookback
    · obtain ⟨rfl, rfl⟩ := Prod.mk.inj (yields_pure.mp hlookback)
      exact ⟨overlayOk_single hanchor.mem, List.suffix_rfl⟩
  have hfirst := toNat_next (n := anchor.height) (by omega)
  have hstart : ForwardInv S anchor.header
      ⟨overlay, anchor.blockId, anchor.height + 1, [], ctx.forwardAt⟩ :=
    ⟨hoverlay, anchor.header, .refl, hanchor.id, by rw [hfirst, hanchor.height],
      fun _ hwork => hwork⟩
  by_cases hlast : claimHeight.toNat + 1 < 2 ^ 64
  · obtain ⟨⟨hinv, hnext⟩, hdone, -⟩ := rounds_invariant
      (I := fun s => ForwardInv S anchor.header s ∧ s.nextHeight.toNat ≤ claimHeight.toNat + 1)
      (fun turn hturn _ _ hs hgoing hround => forwardRound_ok hsees
        (hreplied turn (hsuffix.subset hturn)) hlast hs.1 hgoing hround)
      ⟨hstart, by rw [hfirst]; omega⟩ hloop
    obtain ⟨last, hchain, hid, hheight, hsum⟩ := hinv.chain
    have hover : claimHeight.toNat < s.nextHeight.toNat :=
      UInt64.lt_iff_toNat_lt.mp (UInt64.not_le.mp hdone)
    exact ⟨anchor.header, hanchor.mem, last, hanchor.id, hanchor.height, hchain,
      UInt64.toNat_inj.mp (show last.height.toNat = claimHeight.toNat by omega), hid.trans hend,
      hsum work (hanchor.work work (yields_atOnce.mp hwork))⟩
  · -- the loop never gets above the largest height
    obtain ⟨-, hdone, -⟩ := rounds_invariant (I := fun _ => True) (fun _ _ _ _ _ _ _ => trivial)
      trivial hloop
    have hsmall := s.nextHeight.toNat_lt
    exact absurd (UInt64.le_iff_toNat_le.mpr (by omega)) hdone

end Forward

/-! ## Claims at or below the anchor -/

section Claims

variable [Network] {S : Set BlockHeader} {known chain : List Block} {ctx : TipContext}
  {claimHeight : UInt64} {claimBlockId : Hash256} {turns : List TipTurn} {node : Node}

/-- A turn in which the peer sends one header. -/
def servingTurn (h : BlockHeader) : TipTurn where
  now := 0
  send _ := true
  reply := .headers [h]
  checkedAt := 0

omit [Crypto] [Network] in
theorem fetch_servingTurn (h : BlockHeader) (request : Message) : (servingTurn h).fetch request = .ok [h] := rfl

/-- What a validation returns for a claim at or below its anchor. -/
def unforwarded (claimHeight : UInt64) (claimBlockId : Hash256) (anchorHeight : UInt64)
    (anchorId : Hash256) (work : Work) : ValidatedTip where
  tip :=
    { height := claimHeight
      blockId := claimBlockId
      verifiedCumulativeWork := work
      anchorHeight := anchorHeight
      anchorBlockId := anchorId
      headersValidated := 0 }
  cached := []

theorem runTipForwardValidation_of_yields (h : Yields (ctx.validateTip claimHeight claimBlockId turns) validated) :
    runTipForwardValidation ctx claimHeight claimBlockId turns = some ⟨.ok validated, false⟩ := by
  unfold runTipForwardValidation
  rw [h]
  rfl

/-- With an anchor at or above the claim, the claim is verified whatever its id. -/
theorem validateTip_unforwarded (hslot : ctx.slotAvailable = true) (anchor : TipAnchor) (rest : List TipTurn)
    (hanchor : ∀ deadline, Yields (ctx.selectAnchor deadline claimHeight turns) (anchor, rest))
    (hclaim : claimHeight ≤ anchor.height) (hwork : ctx.workOf anchor = .ok work) :
    Yields (ctx.validateTip claimHeight claimBlockId turns)
      (unforwarded claimHeight claimBlockId anchor.height anchor.blockId work) := by
  refine yields_bind.mpr ⟨(), yields_atOnce.mpr (failIf_eq_ok.mpr (by simp [hslot])), ?_⟩
  refine yields_bind.mpr ⟨(anchor, rest), hanchor _, ?_⟩
  dsimp only
  rw [if_pos hclaim]
  exact yields_bind.mpr ⟨work, yields_atOnce.mpr hwork, yields_pure.mpr rfl⟩

/-- A peer that serves the checkpoint, or the node's own block, gets any claim at that height
verified, and with the checkpoint any claim below. -/
theorem anchorsClaim_unforwarded (hsees : SeesIn S known ctx)
    (h : AnchorsClaim S ctx claimHeight height id) (claimBlockId : Hash256) :
    claimHeight ≤ height ∧ ∃ turns work, (∀ h ∈ replied turns, h ∈ S) ∧
      Yields (ctx.validateTip claimHeight claimBlockId turns)
        (unforwarded claimHeight claimBlockId height id work) := by
  cases h with
  | @checkpoint header hslot hfresh hassume htrusted hstill hmem hheight hid hclaim =>
    refine ⟨hclaim, [servingTurn header], assumeValidCumulativeWork, ?_, ?_⟩
    · exact List.forall_mem_singleton.mpr hmem
    have hanchor : checkpointAnchor (servingTurn header) =
        .ok ⟨assumeValidHeight, header.blockId, header, true⟩ := by
      simp [checkpointAnchor, bind_eq_ok, fetch_servingTurn, failIf, hheight, hid]
    rw [hid] at hanchor
    refine validateTip_unforwarded hslot ⟨assumeValidHeight, assumeValidHash, header, true⟩ []
      (fun deadline => ?_) hclaim ?_
    · unfold TipContext.selectAnchor ValidationRegime.select
      rw [if_pos hfresh]
      rw [if_pos ⟨hassume, htrusted⟩]
      exact yields_bind.mpr ⟨(servingTurn header, []), yields_nextTurn.mpr rfl,
        yields_bind.mpr ⟨_, yields_atOnce.mpr hanchor, yields_pure.mpr rfl⟩⟩
    · unfold TipContext.workOf anchorWork
      rw [if_pos rfl, if_pos hstill]
  | @own probed id header work hslot hchain hclaim hprobe hid hheader hwork =>
    obtain ⟨block, hblock, hheight, hblockId⟩ := seesNodes_index hsees.sees hsees.ids hprobe
    refine ⟨UInt64.le_refl _, [servingTurn block.header], work, ?_, ?_⟩
    · exact List.forall_mem_singleton.mpr (hsees.known ⟨block, hblock, rfl⟩)
    have hclamp : min ctx.ourHeightStart claimHeight = claimHeight := by
      show (if _ ≤ _ then _ else _) = _
      split
      · rename_i hle
        exact UInt64.le_antisymm hle hclaim
      · rfl
    have hsame : ∀ noData,
        ctx.probe 0 (servingTurn block.header) claimHeight noData = .ok true := fun noData =>
      probe_eq_ok.mpr ⟨block.header, [], probed, fetch_servingTurn .., hheight, hprobe,
        by rw [hblockId, beq_self_eq_true]⟩
    have hread : ctx.readAnchor claimHeight = .ok ⟨claimHeight, id, header, false⟩ := by
      unfold TipContext.readAnchor
      rw [hid]
      refine bind_eq_ok.mpr ⟨id, rfl, ?_⟩
      rw [hheader]
      rfl
    refine validateTip_unforwarded hslot ⟨claimHeight, id, header, false⟩ []
      (fun deadline => ?_) (UInt64.le_refl _) ?_
    · unfold TipContext.selectAnchor ValidationRegime.select
      rw [if_neg hchain]
      refine yields_bind.mpr ⟨(claimHeight, []), ?_,
        yields_bind.mpr ⟨_, yields_atOnce.mpr hread, yields_pure.mpr rfl⟩⟩
      unfold TipContext.findAncestor
      rw [hclamp]
      exact yields_bind.mpr ⟨(servingTurn block.header, []), yields_nextTurn.mpr rfl,
        yields_bind.mpr ⟨true, yields_atOnce.mpr (hsame _), yields_pure.mpr rfl⟩⟩
    · unfold TipContext.workOf anchorWork
      rw [if_neg nofun, hwork]
      rfl

/-- A real tip at or below its anchor is the anchor. -/
theorem realTip_unforwarded (hclaim : claimHeight ≤ height)
    (h : RealTip S (unforwarded claimHeight claimBlockId height id work).tip) :
    claimHeight = height ∧ claimBlockId = id := by
  obtain ⟨anchor, -, last, hid, hheight, hchain, hlast, hlastId, -⟩ := h
  rcases follows_height hchain with rfl | hlt
  · exact ⟨hlast.symm.trans hheight, hlastId.symm.trans hid⟩
  · change last.height = claimHeight at hlast
    rw [hlast, hheight] at hlt
    exact absurd (UInt64.le_iff_toNat_le.mp hclaim) (Nat.not_le.mpr hlt)

/-! ### A node that has one block -/

/-- The surroundings of a validation during which the node stands still. -/
def contextOf (node : Node) : TipContext where
  ourHeightStart := node.tip.height
  assumeValid := true
  trusted := true
  stillTrusted := true
  slotAvailable := true
  cores := 1
  startedAt := 0
  forwardAt := 0
  storage _ := node.storage
  fault _ := none

section

variable (hinv : TipInv known chain node)
include hinv

section

omit [Network]

/-- The tip of a node is in the height index. -/
theorem tipInv_index : node.storage.heightIndex.lookup node.tip.height = some node.tip.blockId := by
  obtain ⟨top, below, rfl⟩ := hinv.exists_cons
  have hlength := hinv.tipHeight
  rw [List.length_cons] at hlength
  have hheight : top.header.height = node.tip.height := by
    cases hinv.db.tables.chained with
    | cons _ htop _ => exact UInt64.toNat_inj.mp (by omega)
  exact (hinv.db.tables.index _ _).mpr ⟨top, List.mem_cons_self, hheight, hinv.tipId.symm⟩

/-- The tip of a node is an anchor for a claim at its height. -/
theorem anchorsClaim_tip (hchain : node.tip.height ≠ 0) :
    AnchorsClaim S (contextOf node) node.tip.height node.tip.height node.tip.blockId := by
  have hindex := tipInv_index hinv
  obtain ⟨top, below, rfl⟩ := hinv.exists_cons
  have hid : node.tip.blockId = top.header.blockId := hinv.tipId
  have hheader : node.storage.headers.lookup node.tip.blockId = some top.header := by
    rw [hid]
    exact hinv.db.tables.header top List.mem_cons_self
  have hwork : node.storage.work.lookup node.tip.blockId = some (chainWork (top :: below)) := by
    rw [hid]
    exact hinv.db.tables.work top below List.suffix_rfl
  exact .own rfl hchain (UInt64.le_refl _) (congrArg Except.ok hindex)
    (congrArg Except.ok hindex) (congrArg Except.ok hheader) (congrArg Except.ok hwork)

/-- The only anchor at the height of the tip is the tip. -/
theorem anchorsClaim_tip_unique (hchain : node.tip.height ≠ 0)
    (hclaim : claim = node.tip.height) (h : AnchorsClaim S (contextOf node) claim height id) :
    claim = height ∧ node.tip.blockId = id := by
  cases h with
  | checkpoint _ hfresh => exact absurd hfresh hchain
  | own _ _ _ _ hid =>
    have hrow := getBlockIdByHeight_ok hid
    rw [hclaim] at hrow
    exact ⟨rfl, Option.some_inj.mp ((tipInv_index hinv).symm.trans hrow)⟩

end

end

omit [Crypto] [Network] in
/-- A node with one block above the first. -/
theorem sample_node : let _ := Crypto.ofHash sampleHash
    let _ := testNetwork
    ∃ (genesis : Block) (start node : Node) (calls : List BlockCall) (chain : List Block),
      Started genesis start ∧ CallRun start calls node ∧
      BlockIdsDistinct (offered genesis calls) ∧ TipInv (offered genesis calls) chain node ∧
      node.tip.height ≠ 0 ∧ CheckpointWork (headersOf (offered genesis calls)) := by
  intro _ _
  obtain ⟨genesis, start, node, c, hstart, hcall, hbetter, hids, hheight, -⟩ := sample_extends
  have hrun : CallRun start [c] node := .call .start hcall
  obtain ⟨-, hgenesis⟩ := genesisBlock_ok hstart.block
  have hfirst := tipInv_start hstart (List.mem_cons_self : genesis ∈ offered genesis [c])
  rcases hfirst.call hids (List.mem_cons_of_mem _ List.mem_cons_self) hcall with
    ⟨hsame, -⟩ | ⟨parent, below, hinv⟩
  · exact absurd (hsame ▸ hbetter) (isBetterChain_irrefl _)
  refine ⟨genesis, start, node, [c], _, hstart, hrun, hids, hinv, ?_, ?_⟩
  · intro hzero
    have hlength := hinv.tipHeight
    rw [hzero, List.length_cons, List.length_cons] at hlength
    exact absurd hlength (by show ¬ 0 + 1 = _; omega)
  · rintro _ ⟨block, hblock, rfl⟩ hcheckpoint
    rcases List.mem_pair.mp hblock with rfl | rfl
    · exact absurd (hgenesis ▸ hcheckpoint) (by decide)
    · exact absurd (hheight ▸ hcheckpoint) (by decide)

/-- What a validation verifies is real, whatever the peer sends, exactly where every anchor at or
above the claim that it can take is the claimed block. -/
theorem verified_tip_real_iff (hids : BlockIdsDistinct known) (hsees : SeesNodes known ctx)
    (hknown : ∀ b ∈ known, b.header ∈ S) (hcheckpoint : CheckpointWork S) :
    (∀ turns result validated, (∀ h ∈ replied turns, h ∈ S) →
      runTipForwardValidation ctx claimHeight claimBlockId turns = some result →
      result.outcome = .ok validated → RealTip S validated.tip) ↔
    ∀ height id, AnchorsClaim S ctx claimHeight height id →
      claimHeight = height ∧ claimBlockId = id := by
  have hsees : SeesIn S known ctx :=
    ⟨hids, hsees, by rintro _ ⟨block, hblock, rfl⟩; exact hknown block hblock⟩
  constructor
  · intro hreal height id hanchors
    obtain ⟨hclaim, turns, work, hreplied, hrun⟩ :=
      anchorsClaim_unforwarded hsees hanchors claimBlockId
    exact realTip_unforwarded hclaim
      (hreal turns _ _ hreplied (runTipForwardValidation_of_yields hrun) rfl)
  · intro hcond turns result validated hreplied hrun hok
    obtain ⟨outcome, houtcome, rfl⟩ := Option.map_eq_some_iff.mp hrun
    obtain rfl : outcome = .ok validated := hok
    have hyields : Yields (ctx.validateTip claimHeight claimBlockId turns) validated := houtcome
    obtain ⟨_, hslot, hyields⟩ := yields_bind.mp hyields
    obtain ⟨⟨anchor, rest⟩, hselect, hyields⟩ := yields_bind.mp hyields
    have hslot' : ctx.slotAvailable = true := by
      simpa using failIf_eq_ok.mp (yields_atOnce.mp hslot)
    obtain ⟨hanchor, hsuffix, hclaims⟩ :=
      selectAnchor_ok hsees hcheckpoint hreplied hslot' hselect
    dsimp only at hyields
    split at hyields
    · rename_i hle
      obtain ⟨work, hwork, hyields⟩ := yields_bind.mp hyields
      obtain rfl := yields_pure.mp hyields
      have hwork := yields_atOnce.mp hwork
      obtain ⟨hheight, hid⟩ := hcond _ _ (hclaims work hwork hle)
      exact ⟨anchor.header, hanchor.mem, anchor.header, hanchor.id, hanchor.height, .refl,
        hanchor.height.trans hheight.symm, hanchor.id.trans hid.symm, hanchor.work work hwork⟩
    · rename_i habove
      exact validateForward_ok hsees hanchor habove
        (fun turn hturn => replyHeaders_mem hreplied turn (hsuffix.subset hturn)) hyields

omit [Crypto] [Network] in
/-- A claim of the tip of a node itself. -/
theorem verified_tip_real_own : let _ := Crypto.ofHash sampleHash
    let _ := testNetwork
    ∃ (genesis : Block) (start node : Node) (calls : List BlockCall),
      Started genesis start ∧ CallRun start calls node ∧
      ∀ turns result validated, (∀ h ∈ replied turns, h ∈ headersOf (offered genesis calls)) →
        runTipForwardValidation (contextOf node) node.tip.height node.tip.blockId turns =
          some result →
        result.outcome = .ok validated →
        RealTip (headersOf (offered genesis calls)) validated.tip := by
  intro _ _
  obtain ⟨genesis, start, node, calls, chain, hstart, hrun, hids, hinv, hchain, hcheckpoint⟩ :=
    sample_node
  have hsees : SeesNodes (offered genesis calls) (contextOf node) :=
    fun _ => ⟨genesis, start, calls, node, hstart, hrun, fun _ hb => hb, rfl⟩
  exact ⟨genesis, start, node, calls, hstart, hrun,
    (verified_tip_real_iff hids hsees (fun b hb => (⟨b, hb, rfl⟩ : b.header ∈ headersOf _))
      hcheckpoint).mpr
      fun _ _ h => anchorsClaim_tip_unique hinv hchain rfl h⟩

omit [Crypto] [Network] in
/-- A peer that serves the node its own tip gets an id verified that no block has. -/
theorem forged_tip_verified : let _ := Crypto.ofHash sampleHash
    let _ := testNetwork
    ∃ (genesis : Block) (start node : Node) (calls : List BlockCall) (turns : List TipTurn)
      (result : ValidationResult) (validated : ValidatedTip),
      Started genesis start ∧ CallRun start calls node ∧
      runTipForwardValidation (contextOf node) node.tip.height Hash256.zero turns = some result ∧
      result.outcome = .ok validated ∧ ∀ S, ¬ RealTip S validated.tip := by
  intro _ _
  obtain ⟨genesis, start, node, calls, chain, hstart, hrun, hids, hinv, hchain, -⟩ := sample_node
  have hsees : SeesIn _ (offered genesis calls) (contextOf node) :=
    ⟨hids, fun _ => ⟨genesis, start, calls, node, hstart, hrun, fun _ hb => hb, rfl⟩, subset_rfl⟩
  obtain ⟨top, below, rfl⟩ := hinv.exists_cons
  have hnonzero : node.tip.blockId ≠ Hash256.zero := by
    rw [hinv.tipId]
    have hbody := hinv.db.tables.body top List.mem_cons_self
    exact hids.nonzero top (hinv.db.stored.blocks _ _ hbody).1
  obtain ⟨hclaim, turns, work, -, hyields⟩ := anchorsClaim_unforwarded hsees
    (anchorsClaim_tip hinv hchain) Hash256.zero
  exact ⟨genesis, start, node, calls, turns, _, _, hstart, hrun, runTipForwardValidation_of_yields hyields, rfl,
    fun S hreal => hnonzero (realTip_unforwarded hclaim hreal).2.symm⟩

end Claims

end Exfer.Proof
