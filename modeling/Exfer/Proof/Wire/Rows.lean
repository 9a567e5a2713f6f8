import Exfer.Impl.Storage
import Exfer.Proof.Wire.Transaction

/-!
# Rows of the database

Keys and entries of the UTXO snapshot and undo metadata are read back from what is written
(`deserializeOutpointKey_serialize`, `deserializeUtxoEntry_serialize`,
`deserializeSpentUtxos_serialize`), where datums keep to their limit and the entries can be counted
in 32 bits.
-/

namespace Exfer.Proof

open Lib Impl

variable {entry : UtxoEntry} {row : List UInt8}

@[simp] theorem length_serializeOutpointKey (op : OutPoint) : (serializeOutpointKey op).length = 36 := by
  simp [serializeOutpointKey]

theorem deserializeOutpointKey_serialize (op : OutPoint) :
    deserializeOutpointKey (serializeOutpointKey op) = some op := by
  have hid : (serializeOutpointKey op).take 32 = op.txId.toList ++ [] := by
    rw [serializeOutpointKey, List.take_left' (by simp), List.append_nil]
  have hindex : (serializeOutpointKey op).drop 32 = leBytes 4 op.outputIndex.toNat := by
    rw [serializeOutpointKey, List.drop_left' (by simp)]
  have hlt : op.outputIndex.toNat < 256 ^ 4 := op.outputIndex.toNat_lt
  rw [deserializeOutpointKey, if_neg (by simp), hid, hindex, hashOfBytes_append, leNat_leBytes hlt,
    UInt32.ofNat_toNat]

theorem serializeOutpointKey_inj {op op' : OutPoint}
    (h : serializeOutpointKey op = serializeOutpointKey op') : op = op' := by
  have hread := deserializeOutpointKey_serialize op
  rw [h, deserializeOutpointKey_serialize op', Option.some.injEq] at hread
  exact hread.symm

/-- An entry that rows can hold. -/
structure EntryFits (entry : UtxoEntry) : Prop where
  datum : DatumFits entry.output
  serializes : ∃ bytes, entry.output.serialize = .ok bytes

theorem exists_serializeUtxoEntry (h : EntryFits entry) : ∃ row, serializeUtxoEntry entry = .ok row := by
  obtain ⟨bytes, hbytes⟩ := h.serializes
  exact ⟨_, bind_eq_ok.mpr ⟨bytes, hbytes, rfl⟩⟩

theorem readUtxoEntry_append (h : EntryFits entry) (hrow : serializeUtxoEntry entry = .ok row)
    (rest : List UInt8) : readUtxoEntry (row ++ rest) = some (entry, rest) := by
  obtain ⟨bytes, hbytes, hrow⟩ := bind_eq_ok.mp hrow
  cases hrow
  have hlen : bytes.length < 256 ^ 4 := (output_length hbytes).2
  have hheight : entry.height.toNat < 256 ^ 8 := entry.height.toNat_lt
  have hout : TxOutput.deserialize bytes = .ok (entry.output, bytes.length) := by
    have := output_reads h.datum hbytes []
    rwa [List.append_nil] at this
  -- the data after the length, and after the output
  generalize htail : leBytes 8 entry.height.toNat ++ ([if entry.isCoinbase then 1 else 0] ++ rest) =
    tail
  have hdata : leBytes 4 bytes.length ++ bytes ++ leBytes 8 entry.height.toNat ++
      [if entry.isCoinbase then 1 else 0] ++ rest = leBytes 4 bytes.length ++ (bytes ++ tail) := by
    rw [← htail]
    simp only [List.append_assoc]
  have htailLen : ¬ tail.length < 9 := by
    rw [← htail]
    simp
    omega
  have hflag : decide ((tail.drop 8).headD 0 ≠ 0) = entry.isCoinbase := by
    rw [← htail, drop_leBytes_append]
    cases entry.isCoinbase <;> rfl
  have hdrop : tail.drop 9 = rest := by
    rw [← htail, ← List.append_assoc]
    exact List.drop_left' (by simp)
  have hread : UInt64.ofNat (leNat (tail.take 8)) = entry.height := by
    rw [← htail, leNat_take_append hheight, UInt64.ofNat_toNat]
  rw [hdata, readUtxoEntry, if_neg (by simp)]
  simp only [leNat_take_append hlen, drop_leBytes_append, List.take_left, List.drop_left, hout]
  rw [if_neg (by simp), if_neg (by simp), if_neg htailLen]
  simp only [hread, hflag, hdrop]

theorem deserializeUtxoEntry_serialize (h : EntryFits entry)
    (hrow : serializeUtxoEntry entry = .ok row) : deserializeUtxoEntry row = some entry := by
  have hread := readUtxoEntry_append h hrow []
  rw [List.append_nil] at hread
  rw [deserializeUtxoEntry, hread]

theorem deserializeSpentRows_serialize (h : ∀ x ∈ spent, EntryFits x.2) :
    ∃ bytes, serializeSpentRows spent = .ok bytes ∧
      deserializeSpentRows spent.length bytes = some spent := by
  induction spent with
  | nil => exact ⟨[], rfl, rfl⟩
  | cons x spent ih =>
    obtain ⟨bytes, hbytes, hread⟩ := ih fun y hy => h y (List.mem_cons_of_mem _ hy)
    have hx := h x List.mem_cons_self
    obtain ⟨row, hrow⟩ := exists_serializeUtxoEntry hx
    refine ⟨serializeOutpointKey x.1 ++ row ++ bytes, ?_, ?_⟩
    · exact bind_eq_ok.mpr ⟨row, hrow, bind_eq_ok.mpr ⟨bytes, hbytes, rfl⟩⟩
    · rw [List.length_cons, deserializeSpentRows, List.append_assoc,
        List.take_left' (length_serializeOutpointKey _), List.drop_left' (length_serializeOutpointKey _),
        deserializeOutpointKey_serialize, readUtxoEntry_append hx hrow, Option.bind_eq_bind,
        Option.bind_some]
      simp only [Option.bind_eq_bind, Option.bind_some, hread]
      rfl

/-- Undo metadata is read back as it was written. -/
theorem deserializeSpentUtxos_serialize (h : ∀ x ∈ spent, EntryFits x.2) (hcount : spent.length < 2 ^ 32) :
    ∃ bytes, serializeSpentUtxos spent = .ok bytes ∧ deserializeSpentUtxos bytes = some spent := by
  obtain ⟨bytes, hbytes, hread⟩ := deserializeSpentRows_serialize h
  refine ⟨leBytes 4 spent.length ++ bytes, bind_eq_ok.mpr ⟨bytes, hbytes, rfl⟩, ?_⟩
  rw [deserializeSpentUtxos, if_neg (by simp), leNat_take_append hcount, drop_leBytes_append, hread]

end Exfer.Proof
