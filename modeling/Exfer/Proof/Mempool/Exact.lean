import Exfer.Spec.Mempool

/-!
# The structures of the mempool are exact

An entry leaves every structure (`exact_forget`) and a new one enters every structure
(`exact_insertEntry`), so each operation keeps them exact (`exact_run`) and a run of calls does
(`mempool_exact`). Eviction ends because an entry is lost in each round (`exact_evictWhile`).
-/

namespace Exfer.Proof

open Lib Impl Spec

/-! ## Loops over outpoints -/

theorem mem_foldl_erase [DecidableEq α] {xs : List α} {s : Finset α} {x : α} :
    x ∈ xs.foldl Finset.erase s ↔ x ∈ s ∧ x ∉ xs := by
  induction xs generalizing s with
  | nil => simp
  | cons y xs ih =>
    rw [List.foldl_cons, ih, Finset.mem_erase, List.mem_cons]
    tauto

theorem mem_foldl_insert [DecidableEq α] {xs : List α} {s : Finset α} {x : α} :
    x ∈ xs.foldl (fun s x => insert x s) s ↔ x ∈ s ∨ x ∈ xs := by
  induction xs generalizing s with
  | nil => simp
  | cons y xs ih =>
    rw [List.foldl_cons, ih, Finset.mem_insert, List.mem_cons]
    tauto

/-! ## Entries that leave -/

section

variable [Crypto] {m : Mempool} {txId txId' : Hash256} {e : MempoolEntry}
  {entries : Map Hash256 MempoolEntry} {txBytes : Nat} {tx : Transaction} {s : UtxoSet}

omit [Crypto] in
theorem lookup_erase_iff :
    (entries.erase txId).lookup txId' = some e' ↔ txId' ≠ txId ∧ entries.lookup txId' = some e' := by
  rw [Map.lookup_erase_eq]
  by_cases h : txId' = txId <;> simp [h]

theorem exact_new : Exact Mempool.new where
  txIds txId e h := by simp [Mempool.new] at h
  resolved txId e h := by simp [Mempool.new] at h
  byFeeDensity := Map.isTable_empty.congr fun k v => by simp [Mempool.new]
  spentOutpoints op := by simp [Mempool.new]
  byScript := Index.holds_empty.congr fun script txId => by simp [Mempool.new]
  totalBytes := rfl
  noConflict txId e txId' e' h := by simp [Mempool.new] at h
  capacity := by decide
  maxBytes := by decide

/-- An entry leaves all the structures. -/
theorem exact_forget (h : Exact m) (hentry : m.entries.lookup txId = some e) :
    Exact ({ m with byFeeDensity := m.byFeeDensity.erase (e.feeDensity, txId) }.dropEntry txId e) := by
  obtain ⟨rfl, -⟩ := h.txIds txId e hentry
  have hbytes : total (fun e => e.tx.sizeOrZero) (m.entries.erase e.txId) + e.tx.sizeOrZero =
      total (fun e => e.tx.sizeOrZero) m.entries := total_erase hentry
  have htotal := h.totalBytes
  refine ⟨?_, ?_, ?_, ?_, ?_, ?_, ?_, ?_, ?_⟩
  · intro txId' e' h'
    exact h.txIds txId' e' (lookup_erase_iff.mp h').2
  · intro txId' e' h'
    exact h.resolved txId' e' (lookup_erase_iff.mp h').2
  · intro key txId'
    show (m.byFeeDensity.erase (e.feeDensity, e.txId)).lookup key = some txId' ↔ _
    rw [Map.lookup_erase_eq]
    by_cases hkey : key = (e.feeDensity, e.txId)
    · subst hkey
      simp [Mempool.dropEntry, Mempool.deindexEntry, lookup_erase_iff]
      rintro e' hne - - rfl
      exact hne rfl
    · rw [if_neg hkey, h.byFeeDensity]
      constructor
      · rintro ⟨e', hlookup, rfl⟩
        refine ⟨e', lookup_erase_iff.mpr ⟨?_, hlookup⟩, rfl⟩
        rintro rfl
        rw [hentry] at hlookup
        cases hlookup
        exact hkey rfl
      · rintro ⟨e', hlookup, rfl⟩
        exact ⟨e', (lookup_erase_iff.mp hlookup).2, rfl⟩
  · intro op
    show op ∈ e.tx.outpoints.foldl Finset.erase m.spentOutpoints ↔ _
    rw [mem_foldl_erase, h.spentOutpoints]
    constructor
    · rintro ⟨⟨txId', e', hlookup, hop⟩, hnot⟩
      refine ⟨txId', e', lookup_erase_iff.mpr ⟨?_, hlookup⟩, hop⟩
      rintro rfl
      rw [hentry] at hlookup
      cases hlookup
      exact hnot hop
    · rintro ⟨txId', e', hlookup, hop⟩
      obtain ⟨hne, hlookup⟩ := lookup_erase_iff.mp hlookup
      exact ⟨⟨txId', e', hlookup, hop⟩, fun hop' => hne (h.noConflict _ _ _ _ hlookup hentry op hop hop')⟩
  · refine (h.byScript.removeAll e.scripts e.txId).congr fun script txId' => ?_
    constructor
    · rintro ⟨⟨e', hlookup, hscript⟩, hnot⟩
      refine ⟨e', lookup_erase_iff.mpr ⟨?_, hlookup⟩, hscript⟩
      rintro rfl
      rw [hentry] at hlookup
      cases hlookup
      exact hnot ⟨hscript, rfl⟩
    · rintro ⟨e', hlookup, hscript⟩
      obtain ⟨hne, hlookup⟩ := lookup_erase_iff.mp hlookup
      exact ⟨⟨e', hlookup, hscript⟩, fun hsame => hne hsame.2⟩
  · show m.totalBytes - e.tx.sizeOrZero = total _ (m.entries.erase e.txId)
    omega
  · intro txId' e' txId'' e'' h' h''
    exact h.noConflict _ _ _ _ (lookup_erase_iff.mp h').2 (lookup_erase_iff.mp h'').2
  · show (m.entries.erase e.txId).keys.card ≤ _
    rw [Finmap.keys_erase]
    exact (Finset.card_erase_le).trans h.capacity
  · show m.totalBytes - e.tx.sizeOrZero ≤ _
    have := h.maxBytes
    omega

omit [Crypto] in
theorem remove_entries (m : Mempool) (txId : Hash256) : (m.remove txId).1.entries = m.entries.erase txId := by
  unfold Mempool.remove
  split
  · rename_i hnone
    rw [Map.erase_eq_self hnone]
  · rfl

theorem exact_remove (h : Exact m) (txId : Hash256) : Exact (m.remove txId).1 := by
  unfold Mempool.remove
  split
  · exact h
  · rename_i e hentry
    have := exact_forget h hentry
    rw [(h.txIds txId e hentry).1]
    exact this

theorem exact_removeAll (h : Exact m) (txIds : List Hash256) : Exact (m.removeAll txIds) := by
  induction txIds generalizing m with
  | nil => exact h
  | cons txId txIds ih => exact ih (exact_remove h txId)

theorem exact_removeConfirmed (h : Exact m) (transactions : List Transaction) :
    Exact (m.removeConfirmed transactions) :=
  exact_removeAll (exact_removeAll h _) _

theorem exact_revalidate [Network] (h : Exact m) (s : UtxoSet) (currentHeight : UInt64) :
    Exact (m.revalidate s currentHeight) := by
  unfold Mempool.revalidate
  generalize m.txIds = txIds
  induction txIds generalizing m with
  | nil => exact h
  | cons txId txIds ih =>
    rw [List.foldl_cons]
    apply ih
    split
    · split
      · exact exact_remove h txId
      · exact h
    · exact h

/-! ## Eviction -/

omit [Crypto] in
theorem firstKeyValue_eq_some (h : m.firstKeyValue = some (key, txId)) : m.byFeeDensity.lookup key = some txId := by
  unfold Mempool.firstKeyValue at h
  simp only [Option.bind_eq_bind, Option.bind_eq_some_iff] at h
  obtain ⟨key', -, txId', hlookup, h⟩ := h
  cases h
  exact hlookup

/-- The index has a first key when there are entries. -/
theorem exists_firstKeyValue (h : Exact m) (hentry : m.entries.lookup txId = some e) :
    ∃ key txId, m.firstKeyValue = some (key, txId) := by
  have hkey : (e.feeDensity, txId) ∈ m.byFeeDensity.keys.sort densityLe := by
    rw [Finset.mem_sort, Map.mem_keys_iff, (h.byFeeDensity _ txId).mpr ⟨e, hentry, rfl⟩]
    simp
  cases hsort : m.byFeeDensity.keys.sort densityLe with
  | nil =>
    rw [hsort] at hkey
    cases hkey
  | cons key keys =>
    have hmem : key ∈ m.byFeeDensity.keys.sort densityLe := by
      rw [hsort]
      exact List.mem_cons_self
    rw [Finset.mem_sort, Map.mem_keys_iff] at hmem
    obtain ⟨txId', hlookup⟩ := Option.ne_none_iff_exists'.mp hmem
    simp [Mempool.firstKeyValue, hsort, hlookup]

/-- Eviction takes one entry out. -/
theorem exact_evictLowest (h : Exact m) (hentry : m.entries.lookup txId = some e) :
    Exact m.evictLowest ∧ ∃ txId', m.evictLowest.entries = m.entries.erase txId' ∧
      m.entries.lookup txId' ≠ none := by
  obtain ⟨key, worst, hfirst⟩ := exists_firstKeyValue h hentry
  obtain ⟨e', hlookup, rfl⟩ := (h.byFeeDensity _ _).mp (firstKeyValue_eq_some hfirst)
  unfold Mempool.evictLowest
  rw [hfirst]
  dsimp only
  rw [hlookup]
  exact ⟨exact_forget h hlookup, worst, rfl, by simp [hlookup]⟩

omit [Crypto] in
theorem exists_lookup_of_keys_ne (h : m.entries.keys ≠ ∅) : ∃ txId e, m.entries.lookup txId = some e := by
  obtain ⟨txId, hmem⟩ := Finset.nonempty_iff_ne_empty.mpr h
  obtain ⟨e, he⟩ := Option.ne_none_iff_exists'.mp (Map.mem_keys_iff.mp hmem)
  exact ⟨txId, e, he⟩

/-- An empty mempool has room for a transaction. -/
theorem keys_ne_of_isFull (h : Exact m) (hfull : m.isFull txBytes = true)
    (hbytes : txBytes ≤ maxTxSize) : m.entries.keys ≠ ∅ := by
  intro hempty
  have htotal : m.totalBytes = 0 := by
    rw [h.totalBytes, total, hempty]
    rfl
  simp only [Mempool.isFull, hempty, htotal, Finset.card_empty, mempoolCapacity, maxMempoolBytes,
    maxTxSize] at hbytes hfull
  simp at hfull
  omega

/-- The loop ends, with room for the transaction and with entries that were there before. -/
theorem exact_evictWhile (h : Exact m) (hbytes : txBytes ≤ maxTxSize) (hfuel : m.entries.keys.card < fuel) :
    ∃ m', Mempool.evictWhile txBytes fuel m = some m' ∧ Exact m' ∧ m'.isFull txBytes = false ∧
      ∀ txId e, m'.entries.lookup txId = some e → m.entries.lookup txId = some e := by
  induction fuel generalizing m with
  | zero => omega
  | succ fuel ih =>
    unfold Mempool.evictWhile
    by_cases hfull : m.isFull txBytes = true
    · have hne := keys_ne_of_isFull h hfull hbytes
      obtain ⟨txId, e, hentry⟩ := exists_lookup_of_keys_ne hne
      obtain ⟨hexact, txId', hentries, hsome⟩ := exact_evictLowest h hentry
      have hcard : m.evictLowest.entries.keys.card + 1 = m.entries.keys.card := by
        rw [hentries, Finmap.keys_erase]
        exact Finset.card_erase_add_one (Map.mem_keys_iff.mpr hsome)
      obtain ⟨m', hrun, hexact', hroom, hsub⟩ := ih hexact (by omega)
      refine ⟨m', ?_, hexact', hroom, fun txId e hlookup => ?_⟩
      · rw [if_pos hfull, if_neg hne]
        exact hrun
      · have := hsub txId e hlookup
        rw [hentries] at this
        exact (lookup_erase_iff.mp this).2
    · rw [if_neg hfull]
      exact ⟨m, rfl, h, by simpa using hfull, fun _ _ hlookup => hlookup⟩

/-! ## Entries that enter -/

omit [Crypto] in
theorem lookup_insert_iff (hfree : entries.lookup txId = none) : (entries.insert txId e).lookup txId' = some e' ↔
      entries.lookup txId' = some e' ∨ txId' = txId ∧ e' = e := by
  by_cases h : txId' = txId
  · subst h
    simp [hfree, eq_comm]
  · simp [h]

/-- An entry with inputs that no other entry spends enters all the structures. -/
theorem exact_insertEntry (h : Exact m) (hfree : m.entries.lookup e.txId = none)
    (hid : e.tx.txId = .ok e.txId) (hresolved : e.spentInputs.map SpentInput.outpoint = e.tx.outpoints)
    (hspends : ∀ op ∈ e.tx.outpoints, op ∉ m.spentOutpoints)
    (hroom : m.isFull e.tx.sizeOrZero = false) : Exact (m.insertEntry e e.tx.sizeOrZero) := by
  have hroom : m.entries.keys.card < mempoolCapacity ∧
      m.totalBytes + e.tx.sizeOrZero ≤ maxMempoolBytes := by
    simpa [Mempool.isFull] using hroom
  have hconflict : ∀ txId' e', m.entries.lookup txId' = some e' → ∀ op ∈ e.tx.outpoints,
      op ∉ e'.tx.outpoints := fun txId' e' hlookup op hop hop' =>
    hspends op hop ((h.spentOutpoints op).mpr ⟨txId', e', hlookup, hop'⟩)
  refine ⟨?_, ?_, ?_, ?_, ?_, ?_, ?_, ?_, hroom.2⟩
  · intro txId' e' h'
    rcases (lookup_insert_iff hfree).mp h' with h' | ⟨rfl, rfl⟩
    · exact h.txIds txId' e' h'
    · exact ⟨rfl, hid⟩
  · intro txId' e' h'
    rcases (lookup_insert_iff hfree).mp h' with h' | ⟨rfl, rfl⟩
    · exact h.resolved txId' e' h'
    · exact hresolved
  · intro key txId'
    show (m.byFeeDensity.insert (e.feeDensity, e.txId) e.txId).lookup key = some txId' ↔ _
    rw [Map.lookup_insert_eq]
    by_cases hkey : key = (e.feeDensity, e.txId)
    · rw [if_pos hkey]
      subst hkey
      constructor
      · intro heq
        cases heq
        exact ⟨e, (lookup_insert_iff hfree).mpr (.inr ⟨rfl, rfl⟩), rfl⟩
      · rintro ⟨e', -, heq⟩
        rw [(Prod.mk.inj heq).2]
    · rw [if_neg hkey, h.byFeeDensity]
      constructor
      · rintro ⟨e', hlookup, heq⟩
        exact ⟨e', (lookup_insert_iff hfree).mpr (.inl hlookup), heq⟩
      · rintro ⟨e', hlookup, heq⟩
        rcases (lookup_insert_iff hfree).mp hlookup with hlookup | ⟨rfl, rfl⟩
        · exact ⟨e', hlookup, heq⟩
        · exact absurd heq hkey
  · intro op
    show op ∈ e.tx.outpoints.foldl (fun set op => insert op set) m.spentOutpoints ↔ _
    rw [mem_foldl_insert, h.spentOutpoints]
    constructor
    · rintro (⟨txId', e', hlookup, hop⟩ | hop)
      · exact ⟨txId', e', (lookup_insert_iff hfree).mpr (.inl hlookup), hop⟩
      · exact ⟨e.txId, e, (lookup_insert_iff hfree).mpr (.inr ⟨rfl, rfl⟩), hop⟩
    · rintro ⟨txId', e', hlookup, hop⟩
      rcases (lookup_insert_iff hfree).mp hlookup with hlookup | ⟨rfl, rfl⟩
      · exact .inl ⟨txId', e', hlookup, hop⟩
      · exact .inr hop
  · refine (h.byScript.addAll e.scripts e.txId).congr fun script txId' => ?_
    constructor
    · rintro (⟨e', hlookup, hscript⟩ | ⟨hscript, rfl⟩)
      · exact ⟨e', (lookup_insert_iff hfree).mpr (.inl hlookup), hscript⟩
      · exact ⟨e, (lookup_insert_iff hfree).mpr (.inr ⟨rfl, rfl⟩), hscript⟩
    · rintro ⟨e', hlookup, hscript⟩
      rcases (lookup_insert_iff hfree).mp hlookup with hlookup | ⟨rfl, rfl⟩
      · exact .inl ⟨e', hlookup, hscript⟩
      · exact .inr ⟨hscript, rfl⟩
  · show m.totalBytes + e.tx.sizeOrZero = total _ (m.entries.insert e.txId e)
    rw [total_insert hfree, h.totalBytes]
  · intro txId₁ e₁ txId₂ e₂ h₁ h₂ op hop hop'
    rcases (lookup_insert_iff hfree).mp h₁ with hold₁ | ⟨rfl, rfl⟩ <;>
      rcases (lookup_insert_iff hfree).mp h₂ with hold₂ | ⟨rfl, rfl⟩
    · exact h.noConflict _ _ _ _ hold₁ hold₂ op hop hop'
    · exact absurd hop (hconflict _ _ hold₁ op hop')
    · exact absurd hop' (hconflict _ _ hold₂ op hop)
    · rfl
  · show (m.entries.insert e.txId e).keys.card ≤ _
    rw [Map.card_keys_insert, hfree]
    exact hroom.1

theorem checkLocal_ok (h : m.checkLocal tx = .ok txId) : tx.txId = .ok txId ∧
    m.entries.lookup txId = none ∧ ∀ op ∈ tx.outpoints, op ∉ m.spentOutpoints := by
  obtain ⟨txId', hid, h⟩ := bind_eq_ok.mp h
  obtain ⟨_, hknown, h⟩ := bind_eq_ok.mp h
  obtain ⟨_, -, h⟩ := bind_eq_ok.mp h
  obtain ⟨_, hspends, h⟩ := bind_eq_ok.mp h
  cases h
  refine ⟨?_, ?_, fun op hop => ?_⟩
  · unfold Mempool.idOf at hid
    split at hid
    · cases hid
    · rename_i heq
      rw [heq, Except.ok.inj hid]
  · simpa using failIf_eq_ok.mp hknown
  · exact failIf_eq_ok.mp (forM_eq_ok.mp hspends op hop)

theorem resolveSpentInputs_outpoints (h : Covers s tx) :
    (Mempool.resolveSpentInputs tx s).map SpentInput.outpoint = tx.outpoints := by
  unfold Covers at h
  unfold Mempool.resolveSpentInputs Transaction.outpoints at *
  generalize tx.inputs = inputs at h
  induction inputs with
  | nil => rfl
  | cons input inputs ih =>
    obtain ⟨utxo, hutxo⟩ := Option.isSome_iff_exists.mp (h _ List.mem_cons_self)
    rw [List.filterMap_cons, hutxo]
    simpa using ih fun op hop => h op (List.mem_cons_of_mem _ hop)

/-- What `makeRoom` leaves: the mempool as it is with an error, or one with room. -/
theorem exact_makeRoom (h : Exact m) (feeDensity : Nat) (hbytes : txBytes ≤ maxTxSize) :
    (∃ e, m.makeRoom feeDensity txBytes = some (.error e)) ∨
      ∃ m', m.makeRoom feeDensity txBytes = some (.ok m') ∧ Exact m' ∧ m'.isFull txBytes = false ∧
        ∀ txId e, m'.entries.lookup txId = some e → m.entries.lookup txId = some e := by
  unfold Mempool.makeRoom
  by_cases hfull : m.isFull txBytes = true
  · obtain ⟨txId, e, hentry⟩ := exists_lookup_of_keys_ne (keys_ne_of_isFull h hfull hbytes)
    obtain ⟨⟨worst, id⟩, txId', hfirst⟩ := exists_firstKeyValue h hentry
    rw [if_pos hfull, hfirst]
    by_cases hlow : feeDensity ≤ worst
    · exact .inl ⟨.feeTooLow, if_pos hlow⟩
    obtain ⟨m', hrun, hexact, hroom, hsub⟩ := exact_evictWhile h hbytes (Nat.lt_succ_self _)
    refine .inr ⟨m', ?_, hexact, hroom, hsub⟩
    dsimp only
    rw [if_neg hlow, hrun]
    rfl
  · rw [if_neg hfull]
    exact .inr ⟨m, rfl, h, by simpa using hfull, fun _ _ hlookup => hlookup⟩

/-- Admission leaves the mempool as it is with an error, or exact with the transaction in it. -/
theorem exact_admit (h : Exact m) (fee scriptCost scriptValidationCost : Nat)
    (hlocal : m.checkLocal tx = .ok txId) (hcovers : Covers s tx) (hbytes : tx.sizeOrZero ≤ maxTxSize) :
    ∃ m' r, m.addChecked tx txId fee scriptCost scriptValidationCost s = some (m', r) ∧ Exact m' ∧
      (errorOf r ≠ none → m' = m) := by
  obtain ⟨hid, hfree, hspends⟩ := checkLocal_ok hlocal
  unfold Mempool.addChecked
  split
  · exact ⟨m, _, rfl, h, fun _ => rfl⟩
  rename_i txCost _
  dsimp only
  generalize (if txCost > 0 then min (fee * 1000000) u64Max / txCost else 0) = feeDensity
  rcases exact_makeRoom h feeDensity hbytes with
    ⟨e, hroom⟩ | ⟨m', hroom, hexact, hnotFull, hsub⟩
  · rw [hroom]
    exact ⟨m, _, rfl, h, fun _ => rfl⟩
  · rw [hroom]
    refine ⟨_, _, rfl, exact_insertEntry hexact ?_ hid (resolveSpentInputs_outpoints hcovers) ?_
      hnotFull, fun herror => absurd rfl herror⟩
    · by_contra hsome
      obtain ⟨e, he⟩ := Option.ne_none_iff_exists'.mp hsome
      rw [hsub _ _ he] at hfree
      cases hfree
    · intro op hop hspent
      obtain ⟨txId', e, hlookup, hop'⟩ := (hexact.spentOutpoints op).mp hspent
      exact hspends op hop ((h.spentOutpoints op).mpr ⟨txId', e, hsub _ _ hlookup, hop'⟩)

/-! ## Calls -/

/-- A transaction that passes validation is covered by the set and within the size limit. -/
theorem promised_of_valid [Network] (h : validateTransaction tx s height = .ok r) :
    Covers s tx ∧ tx.sizeOrZero ≤ maxTxSize := by
  obtain ⟨_, hcheck, h⟩ := bind_eq_ok.mp h
  obtain ⟨entries, hentries, _⟩ := bind_eq_ok.mp h
  constructor
  · intro op hop
    obtain ⟨input, hinput, rfl⟩ := List.mem_map.mp hop
    obtain ⟨entry, -, hlookup⟩ := exists_of_mapM_ok hentries input hinput
    unfold lookupInput at hlookup
    dsimp only at hlookup
    split at hlookup
    · cases hlookup
    · rename_i hget
      rw [hget]
      rfl
  · obtain ⟨_, -, h⟩ := bind_eq_ok.mp hcheck
    obtain ⟨_, -, h⟩ := bind_eq_ok.mp h
    obtain ⟨_, -, h⟩ := bind_eq_ok.mp h
    obtain ⟨_, -, h⟩ := bind_eq_ok.mp h
    obtain ⟨_, -, h⟩ := bind_eq_ok.mp h
    obtain ⟨_, hsize, -⟩ := bind_eq_ok.mp h
    unfold checkTxSize at hsize
    unfold Transaction.sizeOrZero
    split at hsize
    · cases hsize
    · rename_i bytes hserialize
      rw [hserialize]
      exact Nat.not_lt.mp (failIf_eq_ok.mp hsize)

variable [Network]

theorem exact_add (h : Exact m) (tx : Transaction) (s : UtxoSet) (currentHeight : UInt64) :
    ∃ m' r, m.add tx s currentHeight = some (m', r) ∧ Exact m' ∧ (errorOf r ≠ none → m' = m) := by
  unfold Mempool.add
  split
  · exact ⟨m, _, rfl, h, fun _ => rfl⟩
  rename_i txId hlocal
  split
  · exact ⟨m, _, rfl, h, fun _ => rfl⟩
  · rename_i fee scriptCost scriptValidationCost hvalid
    obtain ⟨hcovers, hbytes⟩ := promised_of_valid hvalid
    exact exact_admit h fee scriptCost scriptValidationCost hlocal hcovers hbytes

omit [Network] in
theorem exact_addValidated (h : Exact m) (fee scriptCost scriptValidationCost : Nat)
    (hcovers : Covers s tx) (hbytes : tx.sizeOrZero ≤ maxTxSize) :
    ∃ m' r, m.addValidated tx fee scriptCost scriptValidationCost s = some (m', r) ∧ Exact m' ∧
      (errorOf r ≠ none → m' = m) := by
  unfold Mempool.addValidated
  split
  · exact ⟨m, _, rfl, h, fun _ => rfl⟩
  · rename_i txId hlocal
    exact exact_admit h fee scriptCost scriptValidationCost hlocal hcovers hbytes

/-- A call returns; it keeps the structures exact, and leaves everything as it is when it fails. -/
theorem exact_run (h : Exact m) {c : MempoolCall} (hpromised : c.Promised) :
    ∃ m' r, c.run m = some (m', r) ∧ Exact m' ∧ (r ≠ none → m' = m) := by
  cases c with
  | add tx s currentHeight =>
    obtain ⟨m', r, hrun, hexact, herror⟩ := exact_add h tx s currentHeight
    exact ⟨m', errorOf r, by rw [MempoolCall.run, hrun]; rfl, hexact, herror⟩
  | addValidated tx fee scriptCost scriptValidationCost resolvedInputs =>
    obtain ⟨m', r, hrun, hexact, herror⟩ :=
      exact_addValidated h fee scriptCost scriptValidationCost hpromised.1 hpromised.2
    exact ⟨m', errorOf r, by rw [MempoolCall.run, hrun]; rfl, hexact, herror⟩
  | remove txId => exact ⟨_, none, rfl, exact_remove h txId, fun hne => absurd rfl hne⟩
  | removeConfirmed transactions =>
    exact ⟨_, none, rfl, exact_removeConfirmed h transactions, fun hne => absurd rfl hne⟩
  | revalidate s currentHeight =>
    exact ⟨_, none, rfl, exact_revalidate h s currentHeight, fun hne => absurd rfl hne⟩

theorem exact_runCalls (h : Exact m) (hpromised : ∀ c ∈ calls, c.Promised) :
    ∃ m', runCalls m calls = some m' ∧ Exact m' := by
  induction calls generalizing m with
  | nil => exact ⟨m, rfl, h⟩
  | cons c calls ih =>
    obtain ⟨m', r, hrun, hexact, -⟩ := exact_run h (hpromised c List.mem_cons_self)
    unfold runCalls
    rw [hrun]
    exact ih hexact fun c hc => hpromised c (List.mem_cons_of_mem _ hc)

end

/-- After any sequence of calls the structures beside the entries are those of the entries, no two
entries share an input and the caps hold; and a further call that returns an error changes nothing. -/
theorem mempool_exact [Crypto] [Network] (calls : List MempoolCall) (hpromised : ∀ c ∈ calls, c.Promised) :
    ∃ m, runCalls .new calls = some m ∧ Exact m ∧ ∀ c : MempoolCall, c.Promised →
      ∃ m' r, c.run m = some (m', r) ∧ (r ≠ none → m' = m) := by
  obtain ⟨m, hrun, hexact⟩ := exact_runCalls exact_new hpromised
  refine ⟨m, hrun, hexact, fun c hc => ?_⟩
  obtain ⟨m', r, hrun', -, herror⟩ := exact_run hexact hc
  exact ⟨m', r, hrun', herror⟩

/-- A transaction that spends one output and pays another. -/
def poolTx : Transaction :=
  { inputs := [⟨Vector.replicate 32 1, 0⟩]
    outputs := [⟨1000, List.replicate 32 2, none, none⟩]
    witnesses := [⟨List.replicate 96 3, none⟩] }

/-- The output that `poolTx` spends. -/
def poolUtxo : UtxoEntry :=
  { output := ⟨5000, List.replicate 32 4, none, none⟩, height := 0, isCoinbase := false }

/-- A transaction is added from a snapshot with the output it spends, and the block that confirms it
takes it out. -/
theorem mempool_exact_confirmed : let _ : Crypto := Crypto.ofHash fun _ => Hash256.zero
    let _ : Network := ⟨false, 1, Hash256.zero, .inr rfl⟩
    let s : UtxoSet := { UtxoSet.new with
      utxos := Finmap.singleton ⟨Vector.replicate 32 1, 0⟩ poolUtxo }
    ∃ m, runCalls .new [.addValidated poolTx 4000 0 0 s, .removeConfirmed [poolTx]] = some m ∧
      Exact m := by
  intro _ _ s
  have hpromised : ∀ c ∈ [MempoolCall.addValidated poolTx 4000 0 0 s, .removeConfirmed [poolTx]],
      c.Promised := by
    intro c hc
    rcases List.mem_pair.mp hc with rfl | rfl
    · refine ⟨fun op hop => ?_, by decide +kernel⟩
      rw [show op = ⟨Vector.replicate 32 1, 0⟩ from List.mem_singleton.mp hop]
      simp [s, UtxoSet.get]
    · trivial
  obtain ⟨m, hrun, hexact, -⟩ := mempool_exact _ hpromised
  exact ⟨m, hrun, hexact⟩

end Exfer.Proof
