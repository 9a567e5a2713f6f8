import Exfer.Proof.State.Binding
import Exfer.Spec.Headers

/-!
# Stage A installs the ancestors of the checkpoint

The headers collected so far are linked to each other (`StageAInv`), whatever the batches are: a
batch is linked within itself (`verifyNeighbours_ok`) and to the last header before it
(`StageAInv.receiveBatch`). Heights are compared only within a batch, so where a header stands in
the vector follows from its links alone: the header at the height of the checkpoint has the id of
the checkpoint, and the others are its ancestors.
-/

namespace Exfer.Proof

open Impl Lib Spec
open Proof.UtxoSet (digest leNat_digest)

/-! ## The outcome of a failure -/

variable [Crypto]

/-- An outcome other than success. -/
def Fails (e : StageAOutcome) : Prop := e ≠ .success

theorem verifyNeighbours_raises (batch : List BlockHeader) : Raises Fails (verifyNeighbours batch) := by
  fun_induction verifyNeighbours batch with
  | case1 a b batch ih =>
    exact .bind (.failIf nofun) fun _ => .bind (.failIf nofun) fun _ => ih
  | case2 => exact .ok ()

theorem receiveBatch_raises (batch : List BlockHeader) (arrivedAt : Instant) (s : StageAState) :
    Raises Fails (receiveBatch batch arrivedAt s) := by
  unfold receiveBatch
  cases batch.head? with
  | none => exact .error nofun
  | some first =>
    refine .bind (.failIf nofun) fun _ => .bind ?_ fun prevLast => .bind ?_ fun _ => .ok _
    · unfold prevLastForSeam
      split
      · exact .ok _
      · cases s.headers.getLast? with
        | none => exact .error nofun
        | some prev => exact .ok _
    · refine .bind (verifyNeighbours_raises batch) fun _ => ?_
      split
      · exact .failIf nofun
      · exact .ok ()

/-! ## The headers collected so far -/

/-- The headers collected are linked to each other and stand in `S`; before the first batch there
are none. -/
structure StageAInv (S : Set BlockHeader) (s : StageAState) : Prop where
  linked : HashLinked BlockHeader.blockId BlockHeader.prevBlockId s.headers
  mem : ∀ h ∈ s.headers, h ∈ S
  first : s.recvNextIdx = 0 → s.headers = []

/-- What a run ends with: an outcome that is not success, or headers that are linked. -/
def Collected (S : Set BlockHeader) : Except StageAOutcome (List BlockHeader) → Prop
  | .error e => Fails e
  | .ok headers => HashLinked BlockHeader.blockId BlockHeader.prevBlockId headers ∧
      ∀ h ∈ headers, h ∈ S

variable {S : Set BlockHeader} {s : StageAState} {turns : List StageATurn} {startInstant : Instant}
  {node node' : StageANode}

theorem StageAInv.start (startInstant : Instant) : StageAInv S (.start startInstant) :=
  ⟨.nil, nofun, fun _ => rfl⟩

omit [Crypto] in
theorem refillInFlight_spec (h : refillInFlight sends s = some r) : (∃ e, r = .error e ∧ Fails e) ∨
      ∃ s', r = .ok s' ∧ s'.headers = s.headers ∧ s'.recvNextIdx = s.recvNextIdx := by
  fun_induction refillInFlight sends s with
  | case1 => cases h
  | case2 =>
    cases h
    exact .inr ⟨_, rfl, rfl, rfl⟩
  | case3 s sends hroom ih => exact ih h
  | case4 =>
    cases h
    exact .inl ⟨_, rfl, nofun⟩
  | case5 =>
    cases h
    exact .inr ⟨_, rfl, rfl, rfl⟩

theorem verifyNeighbours_ok (h : verifyNeighbours batch = .ok ()) :
    HashLinked BlockHeader.blockId BlockHeader.prevBlockId batch := by
  fun_induction verifyNeighbours batch with
  | case1 a b batch ih =>
    obtain ⟨_, -, h⟩ := bind_eq_ok.mp h
    obtain ⟨_, hlink, h⟩ := bind_eq_ok.mp h
    exact .cons_cons (not_not.mp (failIf_eq_ok.mp hlink)) (ih h)
  | case2 batch hshort =>
    match batch with
    | [] => exact .nil
    | [a] => exact .singleton a
    | a :: b :: batch => exact absurd rfl (hshort a b batch)

/-- A batch that is kept extends the linked headers. -/
theorem StageAInv.receiveBatch {arrivedAt : Instant} {s' : StageAState} (hinv : StageAInv S s)
    (hbatch : ∀ h ∈ batch, h ∈ S) (hroom : s.recvNextIdx < stageARequests)
    (h : receiveBatch batch arrivedAt s = .ok s') : StageAInv S s' := by
  unfold Exfer.Impl.receiveBatch at h
  cases hfirst : batch.head? with
  | none =>
    rw [hfirst] at h
    cases h
  | some first =>
    rw [hfirst] at h
    obtain ⟨_, -, h⟩ := bind_eq_ok.mp h
    obtain ⟨prevLast, hprev, h⟩ := bind_eq_ok.mp h
    obtain ⟨_, hlinkage, h⟩ := bind_eq_ok.mp h
    obtain ⟨_, hneighbours, hseam⟩ := bind_eq_ok.mp hlinkage
    cases h
    refine ⟨hinv.linked.append (verifyNeighbours_ok hneighbours) ?_, ?_, ?_⟩
    · intro x hx y hy
      rw [hfirst] at hseam hy
      cases hy
      unfold prevLastForSeam at hprev
      split at hprev
      · rename_i hzero
        rw [hinv.first hzero] at hx
        cases hx
      · rw [hx] at hprev
        cases hprev
        exact not_not.mp (failIf_eq_ok.mp hseam)
    · intro h hh
      obtain hh | hh := List.mem_append.mp hh
      · exact hinv.mem h hh
      · exact hbatch h hh
    · intro hzero
      -- The counter does not wrap round: it is below the number of requests.
      have hnext : (s.recvNextIdx + 1).toNat = s.recvNextIdx.toNat + 1 := by
        have hbelow : s.recvNextIdx.toNat < stageARequests.toNat := hroom
        have hrequests : stageARequests.toNat = 7813 := by decide
        rw [UInt64.toNat_add]
        exact Nat.mod_eq_of_lt (by simp only [UInt64.toNat_one]; omega)
      rw [show s.recvNextIdx + 1 = 0 from hzero] at hnext
      exact absurd hnext nofun

/-- Whatever a peer sends, the headers that the loop collects are linked. -/
theorem StageAInv.collectHeaders {r : Except StageAOutcome (List BlockHeader)}
    (hinv : StageAInv S s) (hS : ∀ h ∈ delivered turns, h ∈ S)
    (h : collectHeaders turns s = some r) : Collected S r := by
  fun_induction Exfer.Impl.collectHeaders turns s with
  | case1 => cases h
  | case2 =>
    cases h
    exact nofun
  | case3 =>
    cases h
    exact nofun
  | case4 =>
    cases h
    exact nofun
  | case5 => cases h
  | case6 turn turns s _ _ _ e hrefill =>
    cases h
    obtain ⟨e', he, hfails⟩ | ⟨s', hs', -⟩ := refillInFlight_spec hrefill
    · cases he
      exact hfails
    · cases hs'
  | case7 turn turns s _ _ _ s' hrefill hdone =>
    cases h
    obtain ⟨e', he, -⟩ | ⟨s'', hs', hheaders, -⟩ := refillInFlight_spec hrefill
    · cases he
    · cases hs'
      rw [hheaders]
      exact ⟨hinv.linked, hinv.mem⟩
  | case8 =>
    cases h
    exact nofun
  | case9 =>
    cases h
    exact nofun
  | case10 turn turns s _ _ _ s' hrefill hdone batch arrivedAt hrecv e he =>
    cases h
    exact receiveBatch_raises batch arrivedAt s' e he
  | case11 turn turns s _ _ _ s' hrefill hdone batch arrivedAt hrecv s'' hreceive ih =>
    obtain ⟨e', he, -⟩ | ⟨_, hs', hheaders, hrecvNext⟩ := refillInFlight_spec hrefill
    · cases he
    · cases hs'
      have hinv' : StageAInv S s' := by
        refine ⟨?_, ?_, ?_⟩
        · rw [hheaders]; exact hinv.linked
        · rw [hheaders]; exact hinv.mem
        · rw [hheaders, hrecvNext]; exact hinv.first
      have hbatch : ∀ h ∈ batch, h ∈ S := by
        intro h hh
        refine hS h (List.mem_flatMap.mpr ⟨turn, List.mem_cons_self, ?_⟩)
        rw [hrecv]
        exact hh
      exact ih (hinv'.receiveBatch hbatch (UInt64.not_le.mp hdone) hreceive)
        (fun h hh => hS h (List.mem_append_right _ hh)) h

/-! ## What a successful run installs -/

/-- A successful run installs linked headers, with the checkpoint at its height. -/
theorem stageAInner_success (hS : ∀ h ∈ delivered turns, h ∈ S)
    (h : stageAInner turns startInstant node = some (.success, node')) :
    ∃ v anchor, node'.stageAAuthenticatedHeaders = some v ∧
      HashLinked BlockHeader.blockId BlockHeader.prevBlockId v ∧ (∀ h ∈ v, h ∈ S) ∧
      v[assumeValidHeight.toNat]? = some anchor ∧ anchor.blockId = assumeValidHash := by
  unfold stageAInner at h
  cases hrun : collectHeaders turns (.start startInstant) with
  | none =>
    rw [hrun] at h
    cases h
  | some r =>
    have hcollected := (StageAInv.start (S := S) startInstant).collectHeaders hS hrun
    rw [hrun] at h
    cases r with
    | error e =>
      cases h
      exact absurd rfl hcollected
    | ok v =>
      obtain ⟨hlinked, hmem⟩ := hcollected
      simp only [verifyStageAAnchor] at h
      cases hanchor : v[assumeValidHeight.toNat]? with
      | none =>
        rw [hanchor] at h
        cases h
      | some anchor =>
        rw [hanchor] at h
        simp only [failIf] at h
        by_cases hid : anchor.blockId = assumeValidHash
        · rw [if_neg (not_not.mpr hid)] at h
          cases h
          exact ⟨v, anchor, rfl, hlinked, hmem, hanchor, hid⟩
        · rw [if_pos hid] at h
          cases h

/-- Each entry up to the height of the checkpoint is the ancestor of the checkpoint at that
height. -/
theorem stageAInner_ancestors (hinj : S.InjOn BlockHeader.blockId) (hS : ∀ h ∈ delivered turns, h ∈ S)
    (h : stageAInner turns startInstant node = some (.success, node')) :
    ∃ v, node'.stageAAuthenticatedHeaders = some v ∧
      ∀ h ≤ assumeValidHeight.toNat, ∃ e, v[h]? = some e ∧
        ∀ e', CheckpointAncestor S (assumeValidHeight.toNat - h) e' ↔ e' = e := by
  obtain ⟨v, anchor, hv, hlinked, hmem, hanchor, hid⟩ := stageAInner_success hS h
  refine ⟨v, hv, fun h hh => ?_⟩
  obtain ⟨e, he, hancestor⟩ :=
    hlinked.ancestor hmem hanchor (assumeValidHeight.toNat - h) (by omega)
  rw [show assumeValidHeight.toNat - (assumeValidHeight.toNat - h) = h by omega] at he
  rw [hid] at hancestor
  refine ⟨e, he, fun e' => ⟨fun he' => he'.unique hinj hancestor, ?_⟩⟩
  rintro rfl
  exact hancestor

/-! ## An honest peer

A chain with the checkpoint at its height, under a hash that gives the height of a header, and a
peer that sends it in batches of `MAX_GETBLOCKS_ITEMS`. -/

/-- The id of the header at height `n`. -/
def honestId (n : Nat) : Hash256 :=
  if n = assumeValidHeight.toNat then assumeValidHash else digest n

/-- A hash for concrete headers: the id for their height. -/
def honestHash (bs : List UInt8) : Hash256 :=
  honestId (leNat ((bs.drop 4).take 8))

/-- The header at height `n`. -/
def honestHeader (n : Nat) : BlockHeader where
  version := 1
  height := UInt64.ofNat n
  prevBlockId := honestId (n - 1)
  timestamp := 0
  difficultyTarget := Hash256.zero
  nonce := 0
  txRoot := Hash256.zero
  stateRoot := Hash256.zero

/-- The answer to request `k`. -/
def honestBatch (k : Nat) : List BlockHeader :=
  (List.range' (k * maxGetblocksItems) maxGetblocksItems).map honestHeader

/-- A turn in which all messages are sent and the answer to request `k` arrives. -/
def honestTurn (k : Nat) : StageATurn where
  shutdown := false
  now := 0
  stillConnected := true
  sends := List.replicate maxInFlight true
  recv := .headers (honestBatch k) 0

/-- All answers, and the turn after the last. -/
def honestTurns : List StageATurn :=
  (List.range (stageARequests.toNat + 1)).map honestTurn

/-- The headers of the honest chain. -/
def honestChain : Set BlockHeader :=
  {h | ∃ n < 2 ^ 63, h = honestHeader n}

omit [Crypto] in
theorem honestId_inj (hi : i < 2 ^ 63) (hj : j < 2 ^ 63) (h : honestId i = honestId j) : i = j := by
  have hlarge : 2 ^ 63 < leNat assumeValidHash.toList := by decide
  have hnumber : ∀ n < 2 ^ 63, leNat (digest n).toList = n := fun n hn =>
    leNat_digest (hn.trans (by decide))
  have hnumbers := congrArg (fun id : Hash256 => leNat id.toList) h
  unfold honestId at hnumbers
  by_cases hi' : i = assumeValidHeight.toNat <;> by_cases hj' : j = assumeValidHeight.toNat
  · rw [hi', hj']
  · simp only [hi', hj', if_true, if_false, hnumber j hj] at hnumbers
    omega
  · simp only [hi', hj', if_true, if_false, hnumber i hi] at hnumbers
    omega
  · simp only [hi', hj', if_false, hnumber i hi, hnumber j hj] at hnumbers
    exact hnumbers

omit [Crypto] in
/-- The window of requests is filled when all are sent. -/
theorem refillInFlight_replicate (m : Nat) (s : StageAState) (h : maxInFlight ≤ s.inFlight + m) :
    ∃ s', refillInFlight (List.replicate m true) s = some (.ok s') ∧ s'.headers = s.headers ∧
      s'.recvNextIdx = s.recvNextIdx ∧ s'.lastProgressAt = s.lastProgressAt := by
  induction m generalizing s with
  | zero =>
    refine ⟨s, ?_, rfl, rfl, rfl⟩
    exact if_neg fun hroom => absurd hroom.1 (by omega)
  | succ m ih =>
    rw [List.replicate_succ, refillInFlight]
    split
    · obtain ⟨s', hs', hfields⟩ := ih s.request (by simp only [StageAState.request]; omega)
      exact ⟨s', hs', hfields⟩
    · exact ⟨s, rfl, rfl, rfl, rfl⟩

section HonestHash

variable (hhash : (Crypto.sha256 : List UInt8 → Hash256) = honestHash) {n k : Nat}
include hhash

theorem blockId_honestHeader (hn : n < 2 ^ 63) : (honestHeader n).blockId = honestId n := by
  have hheight : (((honestHeader n).serialize.drop 4).take 8) = leBytes 8 n := by
    simp only [BlockHeader.serialize, List.append_assoc, drop_leBytes_append]
    rw [List.take_left' (length_leBytes 8 _)]
    simp only [honestHeader, UInt64.toNat_ofNat_of_lt' (show n < 2 ^ 64 by omega)]
  rw [BlockHeader.blockId, hhash, honestHash, hheight, leNat_leBytes (by omega)]

theorem honestChain_injOn : honestChain.InjOn BlockHeader.blockId := by
  rintro _ ⟨i, hi, rfl⟩ _ ⟨j, hj, rfl⟩ h
  rw [blockId_honestHeader hhash hi, blockId_honestHeader hhash hj] at h
  rw [honestId_inj hi hj h]

theorem verifyNeighbours_honest (n m : Nat) (h : n + m < 2 ^ 63) :
    verifyNeighbours ((List.range' n m).map honestHeader) = .ok () := by
  induction m generalizing n with
  | zero => rfl
  | succ m ih =>
    cases m with
    | zero => rfl
    | succ m =>
      have hrest := ih (n + 1) (by omega)
      rw [List.range'_succ, List.map_cons, List.range'_succ, List.map_cons]
      have hheight : ¬ (honestHeader (n + 1)).height ≠ (honestHeader n).height + 1 := by
        simp [honestHeader, UInt64.ofNat_add]
      have hlink : ¬ (honestHeader (n + 1)).prevBlockId ≠ (honestHeader n).blockId := by
        rw [blockId_honestHeader hhash (by omega)]
        simp [honestHeader]
      rw [verifyNeighbours, failIf, if_neg hheight, failIf, if_neg hlink]
      exact hrest

section

variable (hk : k < stageARequests.toNat)
  (hheaders : s.headers = (List.range (k * maxGetblocksItems)).map honestHeader)
  (hnext : s.recvNextIdx = UInt64.ofNat k)
include hk hheaders hnext

/-- The answer to request `k` links to the answers before it. -/
theorem linkage_honest : ∃ prevLast, prevLastForSeam s = .ok prevLast ∧
      verifyStageABatchLinkage (honestBatch k) prevLast = .ok () := by
  have hrequests : stageARequests.toNat = 7813 := by decide
  have hitems : maxGetblocksItems = 64 := rfl
  have hneighbours : verifyNeighbours (honestBatch k) = .ok () :=
    verifyNeighbours_honest hhash _ _ (by rw [hitems]; omega)
  cases k with
  | zero =>
    refine ⟨none, if_pos hnext, ?_⟩
    unfold verifyStageABatchLinkage
    rw [hneighbours]
    rfl
  | succ k =>
    -- The last header before the batch has the height below its first.
    obtain ⟨n, hn⟩ : ∃ n, (k + 1) * maxGetblocksItems = n + 1 :=
      ⟨k * 64 + 63, by rw [hitems]; omega⟩
    have hbound : n < 2 ^ 63 := by rw [hitems] at hn; omega
    have hlast : s.headers.getLast? = some (honestHeader n) := by
      rw [hheaders, hn, List.range_succ, List.map_append, List.map_singleton, List.getLast?_concat]
    have hpositive : s.recvNextIdx ≠ 0 := by
      rw [hnext]
      intro hzero
      have hvalue := congrArg UInt64.toNat hzero
      rw [UInt64.toNat_ofNat_of_lt' (by rw [UInt64.size]; omega), UInt64.toNat_zero] at hvalue
      omega
    have hhead : (honestBatch (k + 1)).head? = some (honestHeader (n + 1)) := by
      rw [← hn]
      rfl
    have hseam : ¬ (honestHeader (n + 1)).prevBlockId ≠ (honestHeader n).blockId := by
      rw [blockId_honestHeader hhash hbound]
      simp [honestHeader]
    refine ⟨some (honestHeader n), ?_, ?_⟩
    · rw [prevLastForSeam, if_neg hpositive, hlast]
    · unfold verifyStageABatchLinkage
      rw [hneighbours, hhead]
      exact if_neg hseam

/-- The answer to request `k` is kept after those before it. -/
theorem receiveBatch_honest : ∃ s', receiveBatch (honestBatch k) 0 s = .ok s' ∧
      s'.headers = (List.range ((k + 1) * maxGetblocksItems)).map honestHeader ∧
      s'.recvNextIdx = UInt64.ofNat (k + 1) ∧ s'.lastProgressAt = 0 := by
  obtain ⟨prevLast, hprev, hverify⟩ := linkage_honest hhash hk hheaders hnext
  have hhead : (honestBatch k).head? = some (honestHeader (k * maxGetblocksItems)) := rfl
  have hheight : ¬ (honestHeader (k * maxGetblocksItems)).height ≠
      s.recvNextIdx * UInt64.ofNat maxGetblocksItems := by
    rw [hnext, not_not]
    exact UInt64.ofNat_mul k maxGetblocksItems
  have hextend : s.headers ++ honestBatch k =
      (List.range ((k + 1) * maxGetblocksItems)).map honestHeader := by
    rw [hheaders, honestBatch, ← List.map_append, List.range_eq_range', List.range_eq_range',
      Nat.succ_mul, ← List.range'_append_1, Nat.zero_add]
  refine ⟨{ s with
    headers := s.headers ++ honestBatch k
    recvNextIdx := s.recvNextIdx + 1
    inFlight := s.inFlight - 1
    lastProgressAt := 0 }, ?_, hextend, ?_, rfl⟩
  · unfold receiveBatch
    exact failIf_then hheight (bind_eq_ok.mpr ⟨prevLast, hprev, bind_eq_ok.mpr ⟨(), hverify, rfl⟩⟩)
  · rw [UInt64.ofNat_add, ← hnext]
    rfl

end

omit hhash in
/-- A turn of an honest peer gets as far as the batch. -/
theorem collectHeaders_turn (k : Nat) (turns : List StageATurn) (hprogress : s.lastProgressAt = 0) :
    ∃ s', s'.headers = s.headers ∧ s'.recvNextIdx = s.recvNextIdx ∧
      collectHeaders (honestTurn k :: turns) s =
        if stageARequests ≤ s'.recvNextIdx then some (.ok s'.headers)
        else match receiveBatch (honestBatch k) 0 s' with
          | .error e => some (.error e)
          | .ok s => collectHeaders turns s := by
  obtain ⟨s', hrefill, hheaders, hnext, -⟩ := refillInFlight_replicate maxInFlight s (by omega)
  refine ⟨s', hheaders, hnext, ?_⟩
  have htime : ¬ stageAProgressTimeout ≤ (honestTurn k).now - s.lastProgressAt := by
    rw [hprogress]
    exact (by decide : ¬ stageAProgressTimeout ≤ 0 - 0)
  have hsends : refillInFlight (honestTurn k).sends s = some (.ok s') := hrefill
  rw [collectHeaders, if_neg (by exact nofun), if_neg htime, if_neg (by exact nofun), hsends]
  rfl

/-- From the answer to request `k` on, the loop collects all headers. -/
theorem collectHeaders_honest (hk : k + m = stageARequests.toNat)
    (hheaders : s.headers = (List.range (k * maxGetblocksItems)).map honestHeader)
    (hnext : s.recvNextIdx = UInt64.ofNat k) (hprogress : s.lastProgressAt = 0) :
    collectHeaders ((List.range' k (m + 1)).map honestTurn) s =
      some (.ok ((List.range (stageARequests.toNat * maxGetblocksItems)).map honestHeader)) := by
  have hrequests : stageARequests.toNat = 7813 := by decide
  have hcounter : s.recvNextIdx.toNat = k := by
    rw [hnext]
    exact UInt64.toNat_ofNat_of_lt' (by rw [UInt64.size]; omega)
  induction m generalizing k s with
  | zero =>
    rw [List.range'_succ, List.map_cons]
    obtain ⟨s', hheaders', hnext', hturn⟩ :=
      collectHeaders_turn k ((List.range' (k + 1) 0).map honestTurn) hprogress
    have hdone : stageARequests ≤ s'.recvNextIdx := by
      rw [UInt64.le_iff_toNat_le, hnext']
      omega
    rw [hturn, if_pos hdone, hheaders', hheaders, ← hk, Nat.add_zero]
  | succ m ih =>
    rw [List.range'_succ, List.map_cons]
    obtain ⟨s', hheaders', hnext', hturn⟩ :=
      collectHeaders_turn k ((List.range' (k + 1) (m + 1)).map honestTurn) hprogress
    have hmore : ¬ stageARequests ≤ s'.recvNextIdx := by
      rw [UInt64.le_iff_toNat_le, hnext']
      omega
    obtain ⟨s'', hreceive, hheaders'', hnext'', hprogress''⟩ := receiveBatch_honest hhash
      (by omega) (hheaders'.trans hheaders) (hnext'.trans hnext)
    rw [hturn, if_neg hmore, hreceive]
    refine ih (by omega) hheaders'' hnext'' hprogress'' ?_
    rw [hnext'']
    exact UInt64.toNat_ofNat_of_lt' (by rw [UInt64.size]; omega)

omit hhash in
/-- A vector whose entry at the checkpoint's height has the checkpoint's id is accepted. -/
theorem verifyStageAAnchor_eq_ok (hanchor : headers[assumeValidHeight.toNat]? = some anchor)
    (hid : anchor.blockId = assumeValidHash) : verifyStageAAnchor headers = .ok () := by
  rw [verifyStageAAnchor, hanchor]
  exact failIf_eq_ok.mpr (not_not.mpr hid)

omit hhash in
theorem stageAInner_eq_success (node : StageANode)
    (hcollect : collectHeaders turns (.start startInstant) = some (.ok headers))
    (hverify : verifyStageAAnchor headers = .ok ()) :
    stageAInner turns startInstant node = some (.success, ⟨some headers, true⟩) := by
  rw [stageAInner, hcollect]
  simp only [hverify]

omit hhash [Crypto] in
theorem getElem?_map_honestHeader (hk : k < n) : ((List.range n).map honestHeader)[k]? = some (honestHeader k) := by
  rw [List.getElem?_map, List.getElem?_range hk]
  rfl

/-- A run with an honest peer is a success. -/
theorem stageAInner_honest (node : StageANode) :
    ∃ node', stageAInner honestTurns 0 node = some (.success, node') := by
  have hcollect := collectHeaders_honest hhash (m := stageARequests.toNat) (k := 0)
    (Nat.zero_add _) (s := .start 0) rfl rfl rfl
  rw [← List.range_eq_range'] at hcollect
  have hid : (honestHeader assumeValidHeight.toNat).blockId = assumeValidHash := by
    rw [blockId_honestHeader hhash (by decide), honestId, if_pos rfl]
  have hanchor := getElem?_map_honestHeader
    (show assumeValidHeight.toNat < stageARequests.toNat * maxGetblocksItems by decide)
  exact ⟨_, stageAInner_eq_success node hcollect (verifyStageAAnchor_eq_ok hanchor hid)⟩

omit hhash [Crypto] in
theorem delivered_honestTurns : ∀ h ∈ delivered honestTurns, h ∈ honestChain := by
  intro h hh
  obtain ⟨turn, hturn, hh⟩ := List.mem_flatMap.mp hh
  obtain ⟨k, hk, rfl⟩ := List.mem_map.mp hturn
  obtain ⟨n, hn, rfl⟩ := List.mem_map.mp hh
  have hrequests : stageARequests.toNat = 7813 := by decide
  have hitems : maxGetblocksItems = 64 := rfl
  rw [List.mem_range] at hk
  rw [List.mem_range'_1, hitems] at hn
  exact ⟨n, by omega, rfl⟩

end HonestHash

/-- Where no two headers among those in play share an id, entry `h` of the vector that a successful
run installs is the one ancestor of the checkpoint `ASSUME_VALID_HEIGHT - h` blocks below it; so two
successful runs install the same headers up to the checkpoint. -/
theorem stageA_installs_ancestors (hinj : S.InjOn BlockHeader.blockId) {turns : List StageATurn}
    {startInstant : Instant} {node node' : StageANode} (hS : ∀ h ∈ delivered turns, h ∈ S)
    (h : stageAInner turns startInstant node = some (.success, node')) :
    ∃ v, node'.stageAAuthenticatedHeaders = some v ∧
      (∀ h ≤ assumeValidHeight.toNat, ∃ e, v[h]? = some e ∧
        ∀ e', CheckpointAncestor S (assumeValidHeight.toNat - h) e' ↔ e' = e) ∧
      ∀ (turns' : List StageATurn) (startInstant' : Instant) (other other' : StageANode),
        (∀ h ∈ delivered turns', h ∈ S) →
        stageAInner turns' startInstant' other = some (.success, other') →
        ∃ v', other'.stageAAuthenticatedHeaders = some v' ∧
          v'.take (assumeValidHeight.toNat + 1) = v.take (assumeValidHeight.toNat + 1) := by
  obtain ⟨v, hv, hentries⟩ := stageAInner_ancestors hinj hS h
  refine ⟨v, hv, hentries, fun turns' startInstant' other other' hS' h' => ?_⟩
  obtain ⟨v', hv', hentries'⟩ := stageAInner_ancestors hinj hS' h'
  refine ⟨v', hv', List.ext_getElem? fun k => ?_⟩
  by_cases hk : k ≤ assumeValidHeight.toNat
  · rw [List.getElem?_take_of_lt (by omega), List.getElem?_take_of_lt (by omega)]
    obtain ⟨e, he, hunique⟩ := hentries k hk
    obtain ⟨e', he', hunique'⟩ := hentries' k hk
    rw [he, he', (hunique e').mp ((hunique' e').mpr rfl)]
  · rw [List.getElem?_take_eq_none (by omega), List.getElem?_take_eq_none (by omega)]

omit [Crypto] in
theorem stageA_installs_ancestors_honest : let _ : Crypto := Crypto.ofHash honestHash
    ∃ node' v, stageAInner honestTurns 0 ⟨none, false⟩ = some (.success, node') ∧
      node'.stageAAuthenticatedHeaders = some v ∧
      ∀ h ≤ assumeValidHeight.toNat, ∃ e, v[h]? = some e ∧
        ∀ e', CheckpointAncestor honestChain (assumeValidHeight.toNat - h) e' ↔ e' = e := by
  intro _
  obtain ⟨node', hrun⟩ := stageAInner_honest rfl ⟨none, false⟩
  obtain ⟨v, hv, hentries, -⟩ :=
    stageA_installs_ancestors (honestChain_injOn rfl) delivered_honestTurns hrun
  exact ⟨node', v, hrun, hv, hentries⟩

end Exfer.Proof
