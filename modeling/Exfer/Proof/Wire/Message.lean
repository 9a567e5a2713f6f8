import Exfer.Proof.Wire.Block
import Exfer.Spec.Session

/-!
# Messages read back

What the frame of a message is read as (`onWire_of_readBack`): the message itself, but for the
addresses in an `Addr` message, and provided that the transactions of a block have a witness for each
input, without which the encoding of a block does not determine it.
-/

namespace Exfer.Proof

open Lib Impl Spec

variable {α : Type} {tx : Transaction} {bytes rest payload : List UInt8} {m r : Message}

/-! ## Payloads of a fixed size -/

theorem arrayOfBytes_append (v : Vector UInt8 n) (rest : List UInt8) : arrayOfBytes n (v.toList ++ rest) = v := by
  simp [arrayOfBytes, List.getD_eq_getElem?_getD, List.getElem?_append]

theorem arrayOfBytes_toList (v : Vector UInt8 n) : arrayOfBytes n v.toList = v := by
  have h := arrayOfBytes_append v []
  rwa [List.append_nil] at h

@[simp] theorem length_hello (h : HelloMsg) : (serializeHello h).length = 268 := by
  simp [serializeHello]

theorem hello_reads (h : HelloMsg) : deserializeHello (serializeHello h) = .ok h := by
  have hversion : h.version.toNat < 256 ^ 4 := h.version.toNat_lt
  have hheight : h.bestHeight.toNat < 256 ^ 8 := h.bestHeight.toNat_lt
  have hlen := length_hello h
  -- the data from each field on
  have h0 : serializeHello h = leBytes 4 h.version.toNat ++ (h.genesisBlockId.toList ++
      (leBytes 8 h.bestHeight.toNat ++ (h.bestBlockId.toList ++ (h.cumulativeWork.toList ++
        (h.nonce.toList ++ (h.echo.toList ++ (h.pubkey.toList ++ (h.sig.toList ++ [])))))))) := by
    simp only [serializeHello, List.append_assoc, List.append_nil]
  generalize serializeHello h = data at h0 hlen
  have h4 : data.drop 4 = _ := h0 ▸ drop_leBytes_append 4 _ _
  have h36 : data.drop 36 = _ := drop_add_of_drop h4 h.genesisBlockId.length_toList
  have h44 : data.drop 44 = _ := drop_add_of_drop h36 (length_leBytes 8 _)
  have h76 : data.drop 76 = _ := drop_add_of_drop h44 h.bestBlockId.length_toList
  have h108 : data.drop 108 = _ := drop_add_of_drop h76 h.cumulativeWork.length_toList
  have h140 : data.drop 140 = _ := drop_add_of_drop h108 h.nonce.length_toList
  have h172 : data.drop 172 = _ := drop_add_of_drop h140 h.echo.length_toList
  have h204 : data.drop 204 = _ := drop_add_of_drop h172 h.pubkey.length_toList
  refine failIf_then (by omega) ?_
  refine failIf_then (by simp [helloV4PayloadSize, hlen]) ?_
  rw [h4, h36, h44, h76, h108, h140, h172, h204, h0, leNat_take_append hversion,
    leNat_take_append hheight, ← h0, hlen]
  simp only [hashOfBytes_append, arrayOfBytes_append, UInt32.ofNat_toNat, UInt64.ofNat_toNat,
    helloV4PayloadSize, ge_iff_le, Nat.le_refl, if_true, show 172 ≤ 268 by decide]
  rfl

theorem tipResponse_reads (t : TipResponseMsg) : deserializeTipResponse (serializeTipResponse t) = .ok t := by
  have hheight : t.height.toNat < 256 ^ 8 := t.height.toNat_lt
  have hlen : (serializeTipResponse t).length = 72 := by simp [serializeTipResponse]
  have h0 : serializeTipResponse t = leBytes 8 t.height.toNat ++ (t.blockId.toList ++
      (t.cumulativeWork.toList ++ [])) := by
    simp only [serializeTipResponse, List.append_assoc, List.append_nil]
  generalize serializeTipResponse t = data at h0 hlen
  have h8 : data.drop 8 = _ := h0 ▸ drop_leBytes_append 8 _ _
  have h40 : data.drop 40 = _ := drop_add_of_drop h8 t.blockId.length_toList
  refine failIf_then (by omega) ?_
  refine failIf_then (by omega) ?_
  rw [h8, h40, h0, leNat_take_append hheight, hashOfBytes_append, arrayOfBytes_append, UInt64.ofNat_toNat]
  rfl

theorem getHeaders_reads (g : GetHeadersMsg) : deserializeGetHeaders (serializeGetHeaders g) = .ok g := by
  have hstart : g.startHeight.toNat < 256 ^ 8 := g.startHeight.toNat_lt
  have hcount : g.maxCount.toNat < 256 ^ 4 := g.maxCount.toNat_lt
  have hlen : (serializeGetHeaders g).length = 12 := by simp [serializeGetHeaders]
  have hdrop : (serializeGetHeaders g).drop 8 = leBytes 4 g.maxCount.toNat :=
    drop_leBytes_append 8 _ _
  refine failIf_then (by omega) ?_
  rw [hdrop, serializeGetHeaders, leNat_take_append hstart, UInt64.ofNat_toNat,
    List.take_of_length_le (by simp), leNat_leBytes hcount, UInt32.ofNat_toNat]
  rfl

theorem port_reads (port : UInt16) : UInt16.ofNat (leNat ((leBytes 2 port.toNat).take 2)) = port := by
  have hport : port.toNat < 256 ^ 2 := port.toNat_lt
  have htake : (leBytes 2 port.toNat).take 2 = leBytes 2 port.toNat :=
    List.take_of_length_le (length_leBytes 2 _).le
  rw [htake, leNat_leBytes hport, UInt16.ofNat_toNat]

@[simp] theorem length_socketAddr (a : SocketAddr) : (serializeSocketAddr a).length = 18 := by
  cases a <;> simp [serializeSocketAddr, ipv4Mapped]

theorem length_addrEntry (e : AddrEntry) : (serializeAddrEntry e).length = addrEntryWireSize := by
  simp [serializeAddrEntry, addrEntryWireSize]

theorem addrEntry_reads (e : AddrEntry) :
    deserializeAddrEntry (serializeAddrEntry e) = ⟨addrOnWire e.addr, e.lastSeen⟩ := by
  have hseen : e.lastSeen.toNat < 256 ^ 8 := e.lastSeen.toNat_lt
  have hlen := length_socketAddr e.addr
  have haddr : deserializeSocketAddr (serializeSocketAddr e.addr) = addrOnWire e.addr := by
    cases e.addr with
    | v4 ip port =>
      have h16 : (serializeSocketAddr (.v4 ip port)).drop 16 = leBytes 2 port.toNat :=
        List.drop_left' (by simp [ipv4Mapped])
      have h12 : (serializeSocketAddr (.v4 ip port)).drop 12 = ip.toList ++ leBytes 2 port.toNat := by
        rw [serializeSocketAddr, List.append_assoc]
        exact List.drop_left' rfl
      have htake : (serializeSocketAddr (.v4 ip port)).take 12 = ipv4Mapped := by
        rw [serializeSocketAddr, List.append_assoc]
        exact List.take_left' rfl
      rw [deserializeSocketAddr, h16, h12, htake, if_pos rfl, arrayOfBytes_append, port_reads]
      rfl
    | v6 ip port flowinfo scopeId =>
      have h16 : (serializeSocketAddr (.v6 ip port flowinfo scopeId)).drop 16 = leBytes 2 port.toNat :=
        List.drop_left' (by simp)
      have h12 : (serializeSocketAddr (.v6 ip port flowinfo scopeId)).drop 12 =
          ip.toList.drop 12 ++ leBytes 2 port.toNat :=
        List.drop_append_of_le_length (by simp)
      have htake : (serializeSocketAddr (.v6 ip port flowinfo scopeId)).take 12 = ip.toList.take 12 :=
        List.take_append_of_le_length (by simp)
      have hlast (rest : List UInt8) : arrayOfBytes 4 (ip.toList.drop 12 ++ rest) =
          arrayOfBytes 4 (ip.toList.drop 12) := by
        simp [arrayOfBytes, List.getD_eq_getElem?_getD, List.getElem?_append]
      rw [deserializeSocketAddr, h16, h12, htake, hlast, port_reads, serializeSocketAddr, arrayOfBytes_append]
      rfl
  rw [deserializeAddrEntry, serializeAddrEntry, List.take_left' hlen, List.drop_left' hlen, haddr,
    List.take_of_length_le (by simp), leNat_leBytes hseen, UInt64.ofNat_toNat]

/-! ## Lists -/

theorem take_drop_flatMap {write : α → List UInt8} (hlen : ∀ a, (write a).length = size)
    {items : List α} {i : Nat} (hi : i < items.length) :
    ((items.flatMap write).drop (i * size)).take size = write items[i] := by
  induction items generalizing i with
  | nil => exact absurd hi (Nat.not_lt_zero i)
  | cons a items ih =>
    rw [List.flatMap_cons]
    cases i with
    | zero =>
      rw [Nat.zero_mul, List.drop_zero]
      exact List.take_left' (hlen a)
    | succ i =>
      rw [Nat.succ_mul, Nat.add_comm, ← List.drop_drop, List.drop_left' (hlen a)]
      exact ih (Nat.lt_of_succ_lt_succ hi)

theorem items_readBack {max : Nat} {read : List UInt8 → α} {write : α → List UInt8}
    {what : String} (hsize : 0 < size) (hlen : ∀ a, (write a).length = size) {items : List α}
    {items' : List α} (h : deserializeItems max size read what (serializeItems write items) = .ok items') :
    items' = items.map fun a => read (write a) := by
  have hdata : (serializeItems write items).length = 4 + items.length * size := by
    rw [serializeItems, List.length_append, length_leBytes, List.length_flatMap,
      List.map_congr_left fun a _ => hlen a, List.map_const', List.sum_replicate_nat]
  have hdrop (n : Nat) : (serializeItems write items).drop (4 + n) = (items.flatMap write).drop n := by
    rw [← List.drop_drop, serializeItems, drop_leBytes_append]
  obtain ⟨_, _, h⟩ := bind_eq_ok.mp h
  obtain ⟨_, _, h⟩ := bind_eq_ok.mp h
  obtain ⟨_, _, h⟩ := bind_eq_ok.mp h
  obtain ⟨_, hcount, h⟩ := bind_eq_ok.mp h
  have hcount : leNat ((serializeItems write items).take 4) = items.length := by
    have := failIf_eq_ok.mp hcount
    exact (Nat.eq_of_mul_eq_mul_right hsize (by omega)).symm
  rw [hcount] at h
  rw [← Except.ok.inj h]
  refine List.ext_getElem (by simp) fun i hi hi' => ?_
  rw [List.getElem_map, List.getElem_map, List.getElem_range, hdrop,
    take_drop_flatMap hlen (by simpa using hi')]

theorem hashes_readBack (h : deserializeHashList (serializeHashList hashes) = .ok hashes') : hashes' = hashes := by
  have hread (hash : Hash256) : hashOfBytes hash.toList = hash := arrayOfBytes_toList hash
  have hitems := items_readBack (by decide) (fun hash : Hash256 => hash.length_toList) h
  simpa only [hread, List.map_id'] using hitems

/-! ## Blocks -/

/-- The encodings of transactions with a witness for each input can be told from what follows. -/
theorem transaction_delimits (hwitnesses : tx.witnesses.length = tx.inputs.length)
    (hwitnesses' : tx'.witnesses.length = tx'.inputs.length) (h : tx.serialize = .ok bytes)
    (h' : tx'.serialize = .ok bytes') (heq : bytes ++ rest = bytes' ++ rest') : tx = tx' ∧ rest = rest' := by
  obtain ⟨signing, wits, hsigning, hwits, rfl⟩ := serialize_ok.mp h
  obtain ⟨signing', wits', hsigning', hwits', rfl⟩ := serialize_ok.mp h'
  rw [List.append_assoc, List.append_assoc] at heq
  obtain ⟨hinputs, houtputs, heq⟩ := body_eq_of_signingBytes hsigning hsigning' heq
  have hcount : tx.witnesses.length = tx'.witnesses.length := by
    rw [hwitnesses, hwitnesses', hinputs]
  obtain ⟨hwit, hrest⟩ := witness_delimits.many hcount hwits hwits' heq
  cases tx
  simp_all

theorem transaction_length (h : tx.serialize = .ok bytes) : 1 ≤ bytes.length := by
  obtain ⟨signing, _, hsigning, _, rfl⟩ := serialize_ok.mp h
  obtain ⟨_, _, _, _, rfl⟩ := signingBytes_ok.mp hsigning
  simp only [List.length_append, length_leBytes]
  omega

theorem transactions_delimit (hwitnesses : ∀ tx ∈ txs, tx.witnesses.length = tx.inputs.length)
    (hwitnesses' : ∀ tx ∈ txs', tx.witnesses.length = tx.inputs.length)
    (hlen : txs.length = txs'.length) (h : writeMany Transaction.serialize txs = .ok bytes)
    (h' : writeMany Transaction.serialize txs' = .ok bytes')
    (heq : bytes ++ rest = bytes' ++ rest') : txs = txs' := by
  induction txs generalizing txs' bytes bytes' with
  | nil => exact (List.length_eq_zero_iff.mp hlen.symm).symm
  | cons tx txs ih =>
    obtain ⟨tx', txs', rfl⟩ := List.exists_cons_of_length_eq_add_one hlen.symm
    obtain ⟨head, tail, hhead, htail, rfl⟩ := writeMany_cons h
    obtain ⟨head', tail', hhead', htail', rfl⟩ := writeMany_cons h'
    rw [List.append_assoc, List.append_assoc] at heq
    obtain ⟨rfl, heq⟩ := transaction_delimits (hwitnesses tx List.mem_cons_self)
      (hwitnesses' tx' List.mem_cons_self) hhead hhead' heq
    rw [ih (fun t ht => hwitnesses t (List.mem_cons_of_mem _ ht))
      (fun t ht => hwitnesses' t (List.mem_cons_of_mem _ ht)) (Nat.succ.inj hlen) htail htail' heq]

theorem block_readBack (hwitnesses : ∀ tx ∈ block.transactions, tx.witnesses.length = tx.inputs.length)
    (hsize : bytes.length < 256 ^ 4) (h : block.serialize = .ok bytes)
    (hread : Block.deserialize bytes = .ok (block', bytes.length)) : block' = block := by
  have hfits := block_fits hread
  obtain ⟨bytes', hwrite, htakes⟩ := block_faithful hread
  rw [← htakes.eq] at hwrite
  obtain ⟨body, hbody, heq⟩ := blockSerialize_ok.mp h
  obtain ⟨body', hbody', heq'⟩ := blockSerialize_ok.mp hwrite
  -- a block with more transactions than its count can hold has too many bytes
  have hmany : block.transactions.length < 256 ^ 4 := by
    have hle := writeMany_length (fun tx _ b hb => transaction_length hb) hbody
    have hlen := congrArg List.length heq
    simp only [List.length_append] at hlen
    omega
  have hmany' : block'.transactions.length < 256 ^ 4 := hfits.count.trans_lt (by decide)
  rw [← heq', List.append_assoc, List.append_assoc] at heq
  obtain ⟨hheader, heq⟩ := List.append_inj heq (by simp)
  obtain ⟨hcount, heq⟩ := List.append_inj heq (by simp)
  have hcount := leBytes_inj hmany hmany' hcount
  have htxs := transactions_delimit hwitnesses (fun tx htx => (hfits.txs tx htx).witnesses) hcount
    hbody hbody' (congrArg (· ++ []) heq)
  have hheaders : block.header = block'.header := by
    rw [← header_reads block.header, hheader, header_reads]
  cases block
  simp_all

/-! ## Messages -/

theorem readBack_payload (h : ReadBackAs m r) : ∃ payload, m.payload = .ok payload ∧
    payload.length < 256 ^ 4 ∧ Message.ofPayload m.msgType payload = .ok r := by
  obtain ⟨frame, hframe, hread⟩ := h
  obtain ⟨payload, hpayload, hframe⟩ := bind_eq_ok.mp hframe
  rw [← Except.ok.inj hframe] at hread
  obtain ⟨_, _, hread⟩ := bind_eq_ok.mp hread
  obtain ⟨_, hsize, hread⟩ := bind_eq_ok.mp hread
  obtain ⟨_, _, hread⟩ := bind_eq_ok.mp hread
  obtain ⟨r', hof, hread⟩ := bind_eq_ok.mp hread
  obtain ⟨rfl, hlen⟩ := Prod.mk.inj (Except.ok.inj hread)
  have hsize := Nat.not_lt.mp (failIf_eq_ok.mp hsize)
  -- the whole frame is read, so that the length on the wire is that of the payload
  have hlen : leNat (((m.msgType :: (leBytes 4 payload.length ++ payload)).drop 1).take 4) =
      payload.length := by
    simp only [List.length_cons, List.length_append, length_leBytes] at hlen
    omega
  rw [hlen] at hof hsize
  have hdrop : (m.msgType :: (leBytes 4 payload.length ++ payload)).drop 5 = payload :=
    drop_leBytes_append 4 _ _
  rw [hdrop, List.take_length] at hof
  exact ⟨payload, hpayload, hsize.trans_lt (by decide), hof⟩

theorem ofWhole_ok {read : List UInt8 → Except SerError (α × Nat)} {make : α → Message}
    (h : Message.ofWhole name read make payload = .ok r) :
    ∃ a, read payload = .ok (a, payload.length) ∧ r = make a := by
  obtain ⟨⟨a, n⟩, hread, h⟩ := bind_eq_ok.mp h
  obtain ⟨_, hlen, h⟩ := bind_eq_ok.mp h
  have hlen : n = payload.length := Decidable.not_not.mp (failIf_eq_ok.mp hlen)
  exact ⟨a, hlen ▸ hread, (Except.ok.inj h).symm⟩

theorem ofEmpty_ok (h : Message.ofEmpty name m payload = .ok r) : r = m := by
  obtain ⟨_, _, h⟩ := bind_eq_ok.mp h
  exact (Except.ok.inj h).symm

/-- What the frame of a message is read as. -/
theorem onWire_of_readBack (h : ReadBackAs m r) (hwitnessed : Witnessed m) : r = onWire m := by
  obtain ⟨payload, hpayload, hsize, hof⟩ := readBack_payload h
  cases m with
  | hello hello =>
    rw [← Except.ok.inj hpayload] at hof
    obtain ⟨hello', hread, hof⟩ := bind_eq_ok.mp hof
    rw [hello_reads] at hread
    rw [← Except.ok.inj hof, ← Except.ok.inj hread]
    rfl
  | authAck sig =>
    rw [← Except.ok.inj hpayload] at hof
    obtain ⟨_, _, hof⟩ := bind_eq_ok.mp hof
    rw [← Except.ok.inj hof, arrayOfBytes_toList]
    rfl
  | ping | pong | getTip | getAddr => exact ofEmpty_ok hof
  | newBlock b | blockResponse b =>
    obtain ⟨b', hread, rfl⟩ := ofWhole_ok hof
    rw [block_readBack hwitnessed hsize hpayload hread]
    rfl
  | getBlocks hashes | inv hashes =>
    rw [← Except.ok.inj hpayload] at hof
    obtain ⟨hashes', hread, hof⟩ := bind_eq_ok.mp hof
    rw [← Except.ok.inj hof, hashes_readBack hread]
    rfl
  | tipResponse t =>
    rw [← Except.ok.inj hpayload] at hof
    obtain ⟨t', hread, hof⟩ := bind_eq_ok.mp hof
    rw [tipResponse_reads] at hread
    rw [← Except.ok.inj hof, ← Except.ok.inj hread]
    rfl
  | newTx tx =>
    obtain ⟨tx', hread, rfl⟩ := ofWhole_ok hof
    obtain ⟨bytes, hwrite, htakes⟩ := transaction_faithful hread
    rw [← htakes.eq] at hwrite
    rw [serialize_inj hwrite hpayload]
    rfl
  | getHeaders g =>
    rw [← Except.ok.inj hpayload] at hof
    obtain ⟨g', hread, hof⟩ := bind_eq_ok.mp hof
    rw [getHeaders_reads] at hread
    rw [← Except.ok.inj hof, ← Except.ok.inj hread]
    rfl
  | headers hdrs =>
    rw [← Except.ok.inj hpayload] at hof
    obtain ⟨hdrs', hread, hof⟩ := bind_eq_ok.mp hof
    have hdrs := items_readBack (by decide) length_header hread
    simp only [header_reads, List.map_id'] at hdrs
    rw [← Except.ok.inj hof, hdrs]
    rfl
  | addr entries =>
    rw [← Except.ok.inj hpayload] at hof
    obtain ⟨entries', hread, hof⟩ := bind_eq_ok.mp hof
    have hentries := items_readBack (by decide) length_addrEntry hread
    simp only [addrEntry_reads] at hentries
    rw [← Except.ok.inj hof, hentries]
    rfl

end Exfer.Proof
