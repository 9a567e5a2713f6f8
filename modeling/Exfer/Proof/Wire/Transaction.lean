import Exfer.Proof.Block.Rules
import Exfer.Spec.Wire

/-!
# Transactions on the wire

What `serialize` writes, `deserialize` reads, whatever follows, where there is a witness for each input
and datums and redeemers keep to their limits (`transaction_reads`). What `deserialize` accepts is
written back as it was (`transaction_faithful`), and it keeps to the limits (`transaction_fits`). The
bytes that are signed determine the inputs and outputs, and those of the whole transaction determine
it (`body_eq_of_signingBytes`, `serialize_inj`).
-/

namespace Exfer.Proof

open Lib Impl Spec

variable {data rest bytes : List UInt8} {n maxSize : Nat} {flag field : String} {o : TxOutput}
  {w : TxWitness} {tx tx' : Transaction}

/-! ## Fields -/

theorem toNat_leNat32 (h : bs.length = 4) : (UInt32.ofNat (leNat bs)).toNat = leNat bs := by
  have hlt := leNat_lt bs
  rw [h] at hlt
  exact Nat.mod_eq_of_lt hlt

theorem toNat_leNat64 (h : bs.length = 8) : (UInt64.ofNat (leNat bs)).toNat = leNat bs := by
  have hlt := leNat_lt bs
  rw [h] at hlt
  exact Nat.mod_eq_of_lt hlt

theorem hashOfBytes_append (h : Hash256) (rest : List UInt8) : hashOfBytes (h.toList ++ rest) = h := by
  simp [hashOfBytes, List.getD_eq_getElem?_getD, List.getElem?_append]

theorem takes_hash (h : 32 ≤ data.length) : Takes data 32 (hashOfBytes data).toList := by
  refine ⟨h, List.ext_getElem (by simp [h]) fun i hi hi' => ?_⟩
  have hi : i < data.length := by
    rw [List.length_take_of_le h] at hi
    omega
  simp [hashOfBytes, List.getD_eq_getElem?_getD, hi]

/-- A digest that starts with a number determines it. -/
theorem hashOfBytes_leBytes_inj (hm : m < 2 ^ 64) (hn : n < 2 ^ 64) (hrest : 24 ≤ rest.length)
    (hrest' : 24 ≤ rest'.length)
    (h : hashOfBytes (leBytes 8 m ++ rest) = hashOfBytes (leBytes 8 n ++ rest')) : m = n := by
  have hread : ∀ {k : Nat} {rest : List UInt8}, k < 256 ^ 8 → 24 ≤ rest.length →
      leNat ((hashOfBytes (leBytes 8 k ++ rest)).toList.take 8) = k := by
    intro k rest hk hrest
    rw [← (takes_hash (by simp; omega)).2, List.take_take, Nat.min_eq_left (by decide),
      leNat_take_append hk]
  rw [← hread hm hrest, ← hread hn hrest', h]

theorem varbytes_reads (h : serializeVarbytes data = .ok bytes) : ReadsAs deserializeVarbytes data bytes := by
  intro rest
  unfold serializeVarbytes at h
  split at h <;> cases h
  rename_i hlen
  have hn : data.length < 256 ^ 2 := by omega
  unfold deserializeVarbytes
  have hlength : (leBytes 2 data.length ++ (data ++ rest)).length =
      2 + data.length + rest.length := by
    rw [List.length_append, List.length_append, length_leBytes]
    omega
  rw [List.append_assoc, leNat_take_append hn, drop_leBytes_append, hlength, if_neg (by omega),
    if_neg (by omega), List.take_left]
  simp

theorem optVarbytes_reads {data : Option (List UInt8)}
    (hfits : ∀ d, data = some d → d.length ≤ maxSize) (h : serializeOptVarbytes data = .ok bytes) :
    ReadsAs (deserializeOptVarbytes flag field maxSize) data bytes := by
  intro rest
  cases data with
  | none =>
    cases h
    rfl
  | some d =>
    obtain ⟨bytes', hbytes, h⟩ := bind_eq_ok.mp h
    cases h
    have hread : deserializeOptVarbytes flag field maxSize (1 :: bytes' ++ rest) = (do
        let x ← deserializeVarbytes (bytes' ++ rest)
        failIf (x.1.length > maxSize) (.invalidData (field ++ " size " ++ toString x.1.length ++
          " exceeds maximum " ++ toString maxSize))
        return (some x.1, 1 + x.2)) := rfl
    rw [hread, varbytes_reads hbytes rest]
    refine bind_eq_ok.mpr ⟨_, rfl, bind_eq_ok.mpr ⟨(), ?_, ?_⟩⟩
    · exact failIf_eq_ok.mpr (Nat.not_lt.mpr (hfits d rfl))
    · rw [List.length_cons, Nat.add_comm]
      rfl

theorem varbytes_length (h : serializeVarbytes data = .ok bytes) :
    bytes.length = 2 + data.length ∧ data.length ≤ 65535 := by
  unfold serializeVarbytes at h
  split at h
  · rename_i hlen
    rw [← Except.ok.inj h]
    simp [hlen]
  · cases h

theorem serializeOptVarbytes_fits {data : Option (List UInt8)}
    (h : serializeOptVarbytes data = .ok bytes) : ∀ d, data = some d → d.length ≤ 65535 := by
  rintro d rfl
  obtain ⟨bytes', hbytes, -⟩ := bind_eq_ok.mp h
  exact (varbytes_length hbytes).2

theorem optVarbytes_length {data : Option (List UInt8)}
    (h : serializeOptVarbytes data = .ok bytes) : 1 ≤ bytes.length ∧ bytes.length ≤ 65538 := by
  cases data with
  | none =>
    cases h
    decide
  | some d =>
    obtain ⟨bytes', hbytes, h⟩ := bind_eq_ok.mp h
    cases h
    have := varbytes_length hbytes
    simp only [List.length_cons]
    omega

theorem optHash_reads (flag : String) (h : Option Hash256) :
    ReadsAs (deserializeOptHash flag) h (serializeOptHash h) := by
  intro rest
  cases h with
  | none => rfl
  | some h =>
    have hread : deserializeOptHash flag (serializeOptHash (some h) ++ rest) = (do
        failIf ((1 :: h.toList ++ rest).length < 1 + 32) .unexpectedEof
        return (some (hashOfBytes (h.toList ++ rest)), 1 + 32)) := rfl
    rw [hread, hashOfBytes_append]
    refine failIf_then ?_ ?_
    · simp
    · simp [serializeOptHash, pure, Except.pure]

theorem varbytes_faithful : Faithful deserializeVarbytes serializeVarbytes := by
  intro data d n h
  unfold deserializeVarbytes at h
  split at h
  · cases h
  rename_i hlen
  dsimp only at h
  split at h
  · cases h
  cases h
  have hlt : leNat (data.take 2) < 256 ^ 2 := leNat_take_lt (by omega)
  have hd : ((data.drop 2).take (leNat (data.take 2))).length = leNat (data.take 2) := by
    rw [List.length_take_of_le]
    simp only [List.length_drop]
    omega
  refine ⟨_, by rw [serializeVarbytes, hd, if_pos (by omega)], ?_⟩
  refine (Takes.number (by omega)).append (Takes.raw ?_)
  simp only [List.length_drop]
  omega

theorem flag_ok (h : deserializeFlag name data = .ok b) : ∃ rest, data = (if b then 1 else 0) :: rest := by
  cases data with
  | nil => cases h
  | cons flag rest =>
    obtain ⟨_, hflag, h⟩ := bind_eq_ok.mp h
    cases h
    have hle : flag.toNat ≤ 1 := by
      have := failIf_eq_ok.mp hflag
      simpa [UInt8.lt_iff_toNat_lt] using this
    refine ⟨rest, ?_⟩
    rcases Nat.le_one_iff_eq_zero_or_eq_one.mp hle with h | h
    · have : flag = 0 := UInt8.toNat_inj.mp h
      subst this
      rfl
    · have : flag = 1 := UInt8.toNat_inj.mp h
      subst this
      rfl

theorem optVarbytes_faithful (flag field : String) (maxSize : Nat) :
    Faithful (deserializeOptVarbytes flag field maxSize) serializeOptVarbytes := by
  intro data d n h
  obtain ⟨b, hflag, h⟩ := bind_eq_ok.mp h
  obtain ⟨rest, rfl⟩ := flag_ok hflag
  cases b with
  | false =>
    cases h
    exact ⟨[0], rfl, Takes.nil.cons 0⟩
  | true =>
    obtain ⟨⟨bytes, consumed⟩, hread, h⟩ := bind_eq_ok.mp h
    obtain ⟨_, _, h⟩ := bind_eq_ok.mp h
    cases h
    obtain ⟨written, hwrite, htakes⟩ := varbytes_faithful hread
    refine ⟨1 :: written, ?_, htakes.cons 1⟩
    rw [serializeOptVarbytes, hwrite]
    rfl

theorem optVarbytes_size (h : deserializeOptVarbytes flag field maxSize data = .ok (d, n)) :
    ∀ bytes, d = some bytes → bytes.length ≤ maxSize := by
  rintro bytes rfl
  obtain ⟨b, -, h⟩ := bind_eq_ok.mp h
  split at h
  · obtain ⟨⟨bytes, consumed⟩, -, h⟩ := bind_eq_ok.mp h
    obtain ⟨_, hsize, h⟩ := bind_eq_ok.mp h
    cases h
    exact Nat.not_lt.mp (failIf_eq_ok.mp hsize)
  · cases h

theorem optHash_takes (h : deserializeOptHash flag data = .ok (d, n)) : Takes data n (serializeOptHash d) := by
  obtain ⟨b, hflag, h⟩ := bind_eq_ok.mp h
  obtain ⟨rest, rfl⟩ := flag_ok hflag
  cases b with
  | false =>
    cases h
    exact Takes.nil.cons 0
  | true =>
    obtain ⟨_, hlen, h⟩ := bind_eq_ok.mp h
    cases h
    have hlen : 32 ≤ rest.length := by
      have := failIf_eq_ok.mp hlen
      simp only [List.length_cons] at this
      omega
    exact (takes_hash hlen).cons 1

/-! ## Inputs, outputs and witnesses -/

theorem input_reads (i : TxInput) : ReadsAs TxInput.deserialize i i.serialize := by
  intro rest
  have hlt : i.outputIndex.toNat < 256 ^ 4 := i.outputIndex.toNat_lt
  have hdrop : (i.serialize ++ rest).drop 32 = leBytes 4 i.outputIndex.toNat ++ rest := by
    rw [TxInput.serialize, List.append_assoc, List.drop_left' (by simp)]
  refine failIf_then (by simp [TxInput.serialize]; omega) ?_
  rw [hdrop, leNat_take_append hlt, UInt32.ofNat_toNat, TxInput.serialize, List.append_assoc, hashOfBytes_append]
  simp [pure, Except.pure]

theorem input_canonical : Canonical TxInput.deserialize TxInput.serialize := by
  intro data i n h
  obtain ⟨_, hlen, h⟩ := bind_eq_ok.mp h
  obtain ⟨rfl, rfl⟩ := Prod.mk.inj (Except.ok.inj h)
  have hlen := Nat.not_lt.mp (failIf_eq_ok.mp hlen)
  have hnumber : Takes (data.drop 32) 4 (leBytes 4 (leNat ((data.drop 32).take 4))) :=
    .number (by simp; omega)
  rw [← toNat_leNat32 (by simp; omega)] at hnumber
  exact (takes_hash (by omega)).append hnumber

theorem output_reads (hfits : DatumFits o) (h : o.serialize = .ok bytes) :
    ReadsAs TxOutput.deserialize o bytes := by
  intro rest
  obtain ⟨script, hscript, h⟩ := bind_eq_ok.mp h
  obtain ⟨datum, hdatum, h⟩ := bind_eq_ok.mp h
  cases h
  -- the data from each field on
  generalize htail : serializeOptHash o.datumHash ++ rest = tail
  have hdata : leBytes 8 o.value.toNat ++ script ++ datum ++ serializeOptHash o.datumHash ++ rest =
      leBytes 8 o.value.toNat ++ (script ++ (datum ++ tail)) := by
    rw [← htail]
    simp only [List.append_assoc]
  have hdrop : ∀ {n : Nat} (xs ys : List UInt8), xs.length = n → (xs ++ ys).drop n = ys :=
    fun _ _ => List.drop_left'
  rw [hdata]
  unfold TxOutput.deserialize
  rw [leNat_take_append o.value.toNat_lt, UInt64.ofNat_toNat]
  refine failIf_then (by simp) ?_
  refine bind_eq_ok.mpr ⟨_, varbytes_reads hscript _, ?_⟩
  refine bind_eq_ok.mpr ⟨(o.datum, datum.length), ?_, ?_⟩
  · rw [← List.append_assoc, hdrop _ _ (by simp)]
    exact optVarbytes_reads hfits hdatum _
  refine bind_eq_ok.mpr ⟨(o.datumHash, (serializeOptHash o.datumHash).length), ?_, ?_⟩
  · rw [← List.append_assoc, ← List.append_assoc, hdrop _ _ (by simp; omega), ← htail]
    exact optHash_reads ..
  · simp [pure, Except.pure]
    omega

theorem output_faithful : Faithful TxOutput.deserialize TxOutput.serialize := by
  intro data o n h
  obtain ⟨_, hlen, h⟩ := bind_eq_ok.mp h
  obtain ⟨⟨script, consumed⟩, hscript, h⟩ := bind_eq_ok.mp h
  obtain ⟨⟨datum, consumed'⟩, hdatum, h⟩ := bind_eq_ok.mp h
  obtain ⟨⟨datumHash, consumed''⟩, hhash, h⟩ := bind_eq_ok.mp h
  cases h
  have hlen := Nat.not_lt.mp (failIf_eq_ok.mp hlen)
  obtain ⟨scriptBytes, hwrite, hscript⟩ := varbytes_faithful hscript
  obtain ⟨datumBytes, hwrite', hdatum⟩ := optVarbytes_faithful _ _ _ hdatum
  have hhash := optHash_takes hhash
  have hvalue := toNat_leNat64 (List.length_take_of_le hlen)
  refine ⟨_, ?_, (((Takes.number hlen).append hscript).append hdatum).append hhash⟩
  rw [TxOutput.serialize, hwrite, hwrite', hvalue]
  rfl

theorem output_fits (h : TxOutput.deserialize data = .ok (o, n)) : DatumFits o := by
  obtain ⟨_, _, h⟩ := bind_eq_ok.mp h
  obtain ⟨⟨script, consumed⟩, _, h⟩ := bind_eq_ok.mp h
  obtain ⟨⟨datum, consumed'⟩, hdatum, h⟩ := bind_eq_ok.mp h
  obtain ⟨⟨datumHash, consumed''⟩, _, h⟩ := bind_eq_ok.mp h
  cases h
  exact optVarbytes_size hdatum

theorem witness_reads (hfits : ∀ r, w.redeemer = some r → r.length ≤ maxRedeemerSize)
    (h : w.serialize = .ok bytes) : ReadsAs TxWitness.deserialize w bytes := by
  intro rest
  obtain ⟨witness, hwitness, h⟩ := bind_eq_ok.mp h
  obtain ⟨redeemer, hredeemer, h⟩ := bind_eq_ok.mp h
  cases h
  rw [List.append_assoc]
  refine bind_eq_ok.mpr ⟨_, varbytes_reads hwitness _, ?_⟩
  refine bind_eq_ok.mpr ⟨(w.redeemer, redeemer.length), ?_, ?_⟩
  · rw [List.drop_left]
    exact optVarbytes_reads hfits hredeemer rest
  · rw [List.length_append]
    rfl

theorem witness_faithful : Faithful TxWitness.deserialize TxWitness.serialize := by
  intro data w n h
  obtain ⟨⟨witness, pos⟩, hwitness, h⟩ := bind_eq_ok.mp h
  obtain ⟨⟨redeemer, consumed⟩, hredeemer, h⟩ := bind_eq_ok.mp h
  cases h
  obtain ⟨bytes, hwrite, htakes⟩ := varbytes_faithful hwitness
  obtain ⟨bytes', hwrite', htakes'⟩ := optVarbytes_faithful _ _ _ hredeemer
  refine ⟨bytes ++ bytes', ?_, htakes.append htakes'⟩
  rw [TxWitness.serialize, hwrite, hwrite']
  rfl

theorem witness_fits (h : TxWitness.deserialize data = .ok (w, n)) :
    ∀ r, w.redeemer = some r → r.length ≤ maxRedeemerSize := by
  obtain ⟨⟨witness, pos⟩, _, h⟩ := bind_eq_ok.mp h
  obtain ⟨⟨redeemer, consumed⟩, hredeemer, h⟩ := bind_eq_ok.mp h
  cases h
  exact optVarbytes_size hredeemer

theorem output_length (h : o.serialize = .ok bytes) : 12 ≤ bytes.length ∧ bytes.length < 2 ^ 32 := by
  obtain ⟨script, hscript, h⟩ := bind_eq_ok.mp h
  obtain ⟨datum, hdatum, h⟩ := bind_eq_ok.mp h
  cases h
  have hhash : 1 ≤ (serializeOptHash o.datumHash).length ∧
      (serializeOptHash o.datumHash).length ≤ 33 := by
    cases o.datumHash <;> simp [serializeOptHash]
  have := varbytes_length hscript
  have := optVarbytes_length hdatum
  simp only [List.length_append, length_leBytes]
  omega

theorem witness_length (h : w.serialize = .ok bytes) : 3 ≤ bytes.length := by
  obtain ⟨witness, hwitness, h⟩ := bind_eq_ok.mp h
  obtain ⟨redeemer, hredeemer, h⟩ := bind_eq_ok.mp h
  cases h
  have := varbytes_length hwitness
  have := optVarbytes_length hredeemer
  simp only [List.length_append]
  omega

theorem varbytes_delimits : Delimits serializeVarbytes :=
  fun _ _ _ _ _ _ h h' heq => (varbytes_reads h).append_inj (varbytes_reads h') heq

theorem optVarbytes_delimits : Delimits serializeOptVarbytes := by
  intro d d' bytes bytes' rest rest' h h' heq
  have hreads : ReadsAs (deserializeOptVarbytes "" "" 65535) d bytes :=
    optVarbytes_reads (serializeOptVarbytes_fits h) h
  exact hreads.append_inj (optVarbytes_reads (serializeOptVarbytes_fits h') h') heq

/-- The bytes of an output determine it, whatever follows. -/
theorem output_delimits : Delimits TxOutput.serialize := by
  intro o o' bytes bytes' rest rest' h h' heq
  obtain ⟨script, hscript, h⟩ := bind_eq_ok.mp h
  obtain ⟨datum, hdatum, h⟩ := bind_eq_ok.mp h
  obtain ⟨script', hscript', h'⟩ := bind_eq_ok.mp h'
  obtain ⟨datum', hdatum', h'⟩ := bind_eq_ok.mp h'
  rw [← Except.ok.inj h, ← Except.ok.inj h'] at heq
  simp only [List.append_assoc] at heq
  -- field by field, each delimited by its reader
  obtain ⟨hvalue, heq⟩ := List.append_inj heq (by simp)
  obtain ⟨hscripts, heq⟩ := varbytes_delimits hscript hscript' heq
  obtain ⟨hdatums, heq⟩ := optVarbytes_delimits hdatum hdatum' heq
  obtain ⟨hhashes, hrest⟩ := (optHash_reads "" o.datumHash).append_inj
    (optHash_reads "" o'.datumHash) heq
  have hvalues : o.value = o'.value :=
    UInt64.toNat_inj.mp (leBytes_inj o.value.toNat_lt o'.value.toNat_lt hvalue)
  cases o
  simp_all

theorem serialize_output_inj {o' : TxOutput} (h : o.serialize = .ok bytes)
    (h' : o'.serialize = .ok bytes) : o = o' :=
  (output_delimits h h' (congrArg (· ++ []) rfl)).1

theorem witness_delimits : Delimits TxWitness.serialize := by
  intro w w' bytes bytes' rest rest' h h' heq
  obtain ⟨witness, hwitness, h⟩ := bind_eq_ok.mp h
  obtain ⟨redeemer, hredeemer, h⟩ := bind_eq_ok.mp h
  obtain ⟨witness', hwitness', h'⟩ := bind_eq_ok.mp h'
  obtain ⟨redeemer', hredeemer', h'⟩ := bind_eq_ok.mp h'
  rw [← Except.ok.inj h, ← Except.ok.inj h', List.append_assoc, List.append_assoc] at heq
  obtain ⟨hwitnesses, heq⟩ := varbytes_delimits hwitness hwitness' heq
  obtain ⟨hredeemers, hrest⟩ := optVarbytes_delimits hredeemer hredeemer' heq
  cases w
  simp_all

/-! ## Transactions -/

theorem concatSerialized_eq (write : α → Except SerError (List UInt8)) (as : List α) :
    Transaction.concatSerialized write as = writeMany write as := by
  induction as with
  | nil => rfl
  | cons a as ih => rw [Transaction.concatSerialized, writeMany, ih]

theorem serializeHeader_ok :
    tx.serializeHeader = .ok bytes ↔ tx.inputs.length < 256 ^ 2 ∧ tx.outputs.length < 256 ^ 2 ∧
      leBytes 2 tx.inputs.length ++ leBytes 2 tx.outputs.length = bytes := by
  unfold Transaction.serializeHeader
  split
  · split
    · rw [Except.ok.injEq]
      exact ⟨fun h => ⟨by omega, by omega, h⟩, fun h => h.2.2⟩
    · exact ⟨fun h => (nomatch h), fun h => absurd h.2.1 (by omega)⟩
  · exact ⟨fun h => (nomatch h), fun h => absurd h.1 (by omega)⟩

/-- The parts of what a signature is on. -/
theorem signingBytes_ok : tx.signingBytes = .ok bytes ↔ tx.inputs.length < 256 ^ 2 ∧ tx.outputs.length < 256 ^ 2 ∧
      ∃ outputs, writeMany TxOutput.serialize tx.outputs = .ok outputs ∧
        leBytes 2 tx.inputs.length ++ leBytes 2 tx.outputs.length ++
          (tx.inputs.flatMap TxInput.serialize ++ outputs) = bytes := by
  constructor
  · intro h
    obtain ⟨header, hheader, h⟩ := bind_eq_ok.mp h
    obtain ⟨body, hbody, h⟩ := bind_eq_ok.mp h
    obtain ⟨outputs, houtputs, hbody⟩ := bind_eq_ok.mp hbody
    rw [concatSerialized_eq] at houtputs
    obtain ⟨hins, houts, rfl⟩ := serializeHeader_ok.mp hheader
    cases hbody
    exact ⟨hins, houts, outputs, houtputs, Except.ok.inj h⟩
  · rintro ⟨hins, houts, outputs, houtputs, rfl⟩
    rw [← concatSerialized_eq] at houtputs
    rw [Transaction.signingBytes, serializeHeader_ok.mpr ⟨hins, houts, rfl⟩, Transaction.serializeBody, houtputs]
    rfl

/-- A transaction is what a signature is on, and the witnesses. -/
theorem serialize_ok : tx.serialize = .ok bytes ↔ ∃ signing witnesses, tx.signingBytes = .ok signing ∧
      writeMany TxWitness.serialize tx.witnesses = .ok witnesses ∧ signing ++ witnesses = bytes := by
  constructor
  · intro h
    obtain ⟨header, hheader, h⟩ := bind_eq_ok.mp h
    obtain ⟨body, hbody, h⟩ := bind_eq_ok.mp h
    obtain ⟨witnesses, hwitnesses, h⟩ := bind_eq_ok.mp h
    rw [concatSerialized_eq] at hwitnesses
    refine ⟨header ++ body, witnesses, ?_, hwitnesses, Except.ok.inj h⟩
    rw [Transaction.signingBytes, hheader, hbody]
    rfl
  · rintro ⟨signing, witnesses, hsigning, hwitnesses, rfl⟩
    obtain ⟨header, hheader, hsigning⟩ := bind_eq_ok.mp hsigning
    obtain ⟨body, hbody, hsigning⟩ := bind_eq_ok.mp hsigning
    cases hsigning
    rw [← concatSerialized_eq] at hwitnesses
    rw [Transaction.serialize, hheader, hbody, hwitnesses]
    rfl

theorem length_inputs (inputs : List TxInput) : (inputs.flatMap TxInput.serialize).length = inputs.length * 36 := by
  induction inputs with
  | nil => rfl
  | cons i inputs ih => simp [TxInput.serialize, ih]; omega

theorem transaction_reads (hfits : TxFits tx) (h : tx.serialize = .ok bytes) :
    ReadsAs Transaction.deserialize tx bytes := by
  intro rest
  obtain ⟨_, witnesses, hsigning, hwitnesses, rfl⟩ := serialize_ok.mp h
  obtain ⟨hins, houts, outputs, houtputs, rfl⟩ := signingBytes_ok.mp hsigning
  -- the data from each part on
  generalize hinputs : tx.inputs.flatMap TxInput.serialize = inputs
  have hinsLen : inputs.length = tx.inputs.length * 36 := by rw [← hinputs, length_inputs]
  have houtsLen := writeMany_length (fun _ _ _ h => (output_length h).1) houtputs
  have hwitsLen := writeMany_length (fun _ _ _ => witness_length) hwitnesses
  rw [hfits.witnesses] at hwitsLen
  have hdata : leBytes 2 tx.inputs.length ++ leBytes 2 tx.outputs.length ++ (inputs ++ outputs) ++
      witnesses ++ rest = leBytes 2 tx.inputs.length ++ (leBytes 2 tx.outputs.length ++
        (inputs ++ (outputs ++ (witnesses ++ rest)))) := by
    simp only [List.append_assoc]
  have hdrop : ∀ {n : Nat} (xs ys : List UInt8), xs.length = n → (xs ++ ys).drop n = ys :=
    fun _ _ => List.drop_left'
  have hlen : 4 + tx.inputs.length * 36 + tx.outputs.length * 12 + tx.inputs.length * 3 ≤
      (leBytes 2 tx.inputs.length ++ (leBytes 2 tx.outputs.length ++
        (inputs ++ (outputs ++ (witnesses ++ rest))))).length := by
    simp only [List.length_append, length_leBytes]
    omega
  rw [hdata]
  unfold Transaction.deserialize
  rw [leNat_take_append hins, drop_leBytes_append, leNat_take_append houts]
  refine failIf_then (by omega) ?_
  refine failIf_then (by omega) ?_
  refine bind_eq_ok.mpr ⟨(tx.inputs, inputs.length), ?_, ?_⟩
  · rw [← List.append_assoc, hdrop _ _ (by simp), ← hinputs]
    exact readMany_reads (fun i _ => input_reads i) _
  refine bind_eq_ok.mpr ⟨(tx.outputs, outputs.length), ?_, ?_⟩
  · rw [← List.append_assoc, ← List.append_assoc, hdrop _ _ (by simp; omega)]
    exact writeMany_reads (fun o ho _ => output_reads (hfits.datums o ho)) houtputs _
  refine bind_eq_ok.mpr ⟨(tx.witnesses, witnesses.length), ?_, ?_⟩
  · rw [← List.append_assoc, ← List.append_assoc, ← List.append_assoc, hdrop _ _ (by simp; omega),
      ← hfits.witnesses]
    exact writeMany_reads (fun w hw _ => witness_reads (hfits.redeemers w hw)) hwitnesses _
  · simp [pure, Except.pure]
    omega

theorem transaction_faithful : Faithful Transaction.deserialize Transaction.serialize := by
  intro data tx n h
  obtain ⟨_, hlen, h⟩ := bind_eq_ok.mp h
  obtain ⟨_, _, h⟩ := bind_eq_ok.mp h
  obtain ⟨⟨inputs, consumed⟩, hinputs, h⟩ := bind_eq_ok.mp h
  obtain ⟨⟨outputs, consumed'⟩, houtputs, h⟩ := bind_eq_ok.mp h
  obtain ⟨⟨witnesses, consumed''⟩, hwitnesses, h⟩ := bind_eq_ok.mp h
  cases h
  have hlen := Nat.not_lt.mp (failIf_eq_ok.mp hlen)
  have hins : leNat (data.take 2) < 256 ^ 2 := leNat_take_lt (by omega)
  have houts : leNat ((data.drop 2).take 2) < 256 ^ 2 := leNat_take_lt (by simp; omega)
  have hcounts : Takes data (2 + 2) (leBytes 2 (leNat (data.take 2)) ++ leBytes 2 (leNat ((data.drop 2).take 2))) :=
    (Takes.number (by omega)).append (Takes.number (by simp; omega))
  obtain ⟨outputBytes, hwrite, houtputs'⟩ := output_faithful.many _ houtputs
  obtain ⟨witnessBytes, hwrite', hwitnesses'⟩ := witness_faithful.many _ hwitnesses
  have hinputs' := input_canonical.many _ hinputs
  rw [← length_readMany hinputs] at hins hcounts
  rw [← length_readMany houtputs] at houts hcounts
  refine ⟨_, serialize_ok.mpr ⟨_, witnessBytes, signingBytes_ok.mpr ⟨hins, houts, outputBytes, hwrite, rfl⟩,
    hwrite', rfl⟩, ?_⟩
  exact ((hcounts.append hinputs').append houtputs').append hwitnesses'

theorem transaction_fits (h : Transaction.deserialize data = .ok (tx, n)) : TxFits tx := by
  obtain ⟨_, _, h⟩ := bind_eq_ok.mp h
  obtain ⟨_, _, h⟩ := bind_eq_ok.mp h
  obtain ⟨⟨inputs, consumed⟩, hinputs, h⟩ := bind_eq_ok.mp h
  obtain ⟨⟨outputs, consumed'⟩, houtputs, h⟩ := bind_eq_ok.mp h
  obtain ⟨⟨witnesses, consumed''⟩, hwitnesses, h⟩ := bind_eq_ok.mp h
  cases h
  refine ⟨(length_readMany hwitnesses).trans (length_readMany hinputs).symm, fun o ho => ?_, fun w hw => ?_⟩
  · obtain ⟨_, _, hread⟩ := exists_of_mem_readMany houtputs o ho
    exact output_fits hread
  · obtain ⟨_, _, hread⟩ := exists_of_mem_readMany hwitnesses w hw
    exact witness_fits hread

/-! ## What the bytes determine -/

/-- What a signature is on determines the inputs and outputs, whatever follows. -/
theorem body_eq_of_signingBytes (h : tx.signingBytes = .ok bytes)
    (h' : tx'.signingBytes = .ok bytes') (heq : bytes ++ rest = bytes' ++ rest') :
    tx.inputs = tx'.inputs ∧ tx.outputs = tx'.outputs ∧ rest = rest' := by
  obtain ⟨hins, houts, outputs, houtputs, rfl⟩ := signingBytes_ok.mp h
  obtain ⟨hins', houts', outputs', houtputs', rfl⟩ := signingBytes_ok.mp h'
  simp only [List.append_assoc] at heq
  obtain ⟨hcount, heq⟩ := List.append_inj heq (by simp)
  obtain ⟨hcount', heq⟩ := List.append_inj heq (by simp)
  have hinputs := leBytes_inj hins hins' hcount
  have houtputsLen := leBytes_inj houts houts' hcount'
  -- the counts are those of one reader
  have hreads : ReadsAs (readMany TxInput.deserialize tx.inputs.length) tx.inputs _ :=
    readMany_reads fun i _ => input_reads i
  have hreads' : ReadsAs (readMany TxInput.deserialize tx'.inputs.length) tx'.inputs _ :=
    readMany_reads fun i _ => input_reads i
  rw [← hinputs] at hreads'
  obtain ⟨hinputs, heq⟩ := hreads.append_inj hreads' heq
  obtain ⟨houtputs, hrest⟩ := output_delimits.many houtputsLen houtputs houtputs' heq
  exact ⟨hinputs, houtputs, hrest⟩

/-- The bytes of a transaction determine it, with the number of its witnesses. -/
theorem serialize_inj (h : tx.serialize = .ok bytes) (h' : tx'.serialize = .ok bytes) : tx = tx' := by
  obtain ⟨signing, witnesses, hsigning, hwitnesses, rfl⟩ := serialize_ok.mp h
  obtain ⟨signing', witnesses', hsigning', hwitnesses', heq⟩ := serialize_ok.mp h'
  obtain ⟨hinputs, houtputs, rfl⟩ := body_eq_of_signingBytes hsigning hsigning' heq.symm
  have hpos : ∀ w : TxWitness, w.serialize ≠ .ok [] :=
    fun w hw => absurd (witness_length hw) (by decide)
  have hwits := witness_delimits.all hpos hwitnesses hwitnesses'
  cases tx
  simp_all

end Exfer.Proof
