import Exfer.Proof.Wire.Rows

/-!
# The state root commits to the UTXO set

Two sets with the same root hold the same entries, as long as SHA-256 does not collide on what is
hashed for the two of them (`Hashed`) and no leaf has the digest of an empty leaf. The roots are
followed down the uncompressed trees, which have the same depth everywhere, so that a leaf is never
compared with an inner node (`naiveRoot_inj`); equal leaves are equal entries because each field of
an entry is delimited in its leaf (`valuePreimage_inj`).
-/

namespace Exfer.Proof

open Lib Impl Spec

variable {op op' : OutPoint} {bytes : List UInt8} {x : Hash256 × Hash256}

/-! ## What is hashed -/

/-- What is hashed for the leaf key of an outpoint. -/
def keyPreimage (op : OutPoint) : List UInt8 :=
  UInt8.ofNat dsState.length :: (dsState ++ (op.txId.toList ++ leBytes 4 op.outputIndex.toNat))

/-- What is hashed for the leaf value of an entry. -/
def valuePreimage (bytes : List UInt8) (height : UInt64) (isCoinbase : Bool) : List UInt8 :=
  bytes ++ leBytes 8 height.toNat ++ [if isCoinbase then 1 else 0]

/-- What is hashed for an inner node with the given children. -/
def nodePreimage (children : Hash256 × Hash256) : List UInt8 :=
  children.1.toList ++ children.2.toList

theorem keyPreimage_inj (h : keyPreimage op = keyPreimage op') : op = op' :=
  serializeOutpointKey_inj (List.append_cancel_left (List.cons.inj h).2)

/-- An entry can be read off its leaf: its last nine bytes are the height and the coinbase flag, and
what is before them determines the output. -/
theorem valuePreimage_inj {e e' : UtxoEntry} (hb : e.output.serialize = .ok bytes)
    (hb' : e'.output.serialize = .ok bytes')
    (h : valuePreimage bytes e.height e.isCoinbase = valuePreimage bytes' e'.height e'.isCoinbase) : e = e' := by
  obtain ⟨h, hflag⟩ := List.append_inj' h rfl
  obtain ⟨rfl, hheight⟩ := List.append_inj' h (by simp)
  have houtput : e.output = e'.output := serialize_output_inj hb hb'
  have hheight : e.height = e'.height := by
    have := congrArg leNat hheight
    rw [leNat_leBytes e.height.toNat_lt, leNat_leBytes e'.height.toNat_lt] at this
    exact UInt64.toNat_inj.mp this
  have hflag : e.isCoinbase = e'.isCoinbase := by
    revert hflag
    cases e.isCoinbase <;> cases e'.isCoinbase <;> decide
  cases e
  simp_all

theorem nodePreimage_inj (h : nodePreimage x = nodePreimage y) : x = y := by
  obtain ⟨h1, h2⟩ := List.append_inj h (by simp)
  exact Prod.ext (Vector.toList_inj.mp h1) (Vector.toList_inj.mp h2)

variable [Crypto] {p : Nat → Bool} {m : LeafMap} {S : Set (List UInt8)}

/-! ## Roots of leaf maps -/

/-- The pairs of children of the uncompressed tree that holds `m`. -/
def naivePairs (m : LeafMap) : Set (Hash256 × Hash256) :=
  treePairs nodeHash (naiveLeaf m.lookup) smtDepth 0 fun _ => false

/-- The digest of an empty leaf is not the value of a key. -/
def NonzeroLeaves (m : LeafMap) : Prop :=
  ∀ key, m.lookup key ≠ some Hash256.zero

omit [Crypto] in
theorem naiveLeaf_congr (m : LeafMap) (h : Agree smtDepth p q) : naiveLeaf m.lookup p = naiveLeaf m.lookup q := by
  have hkey : keyOfBits p = keyOfBits q :=
    keyOfBits_eq_iff.mpr fun i hi => (h i hi).trans (keyBit_keyOfBits q hi).symm
  rw [naiveLeaf, naiveLeaf, hkey]

/-- Where the inner nodes do not collide, the root determines the map. -/
theorem naiveRoot_inj (hinj : Set.InjOn Crypto.sha256 S)
    (hm : ∀ x ∈ naivePairs m, nodePreimage x ∈ S) (hm' : ∀ x ∈ naivePairs m', nodePreimage x ∈ S)
    (hne : NonzeroLeaves m) (hne' : NonzeroLeaves m') (hroot : naiveRoot m = naiveRoot m') : m = m' := by
  have hnode : Set.InjOn (fun x : Hash256 × Hash256 => nodeHash x.1 x.2)
      { x | nodePreimage x ∈ S } := fun x hx y hy h => nodePreimage_inj (hinj hx hy h)
  have hleaves := leaf_eq_of_treeHash_eq hnode hm hm'
    (fun _ _ => naiveLeaf_congr m) (fun _ _ => naiveLeaf_congr m') hroot
  refine Finmap.ext_lookup fun key => ?_
  have hleaf := hleaves (keyBit key) fun i hi => absurd hi (Nat.not_lt_zero i)
  have hkey : keyOfBits (keyBit key) = key := keyOfBits_eq_iff.mpr fun _ _ => rfl
  rw [naiveLeaf, naiveLeaf, hkey] at hleaf
  have hzero := hne key
  have hzero' := hne' key
  -- a missing value reads as zero, which no key has
  cases h : m.lookup key <;> cases h' : m'.lookup key <;> simp_all

/-! ## Roots of UTXO sets -/

namespace UtxoSet

open Impl.UtxoSet

variable {D : Set OutPoint} {n : Nat}

/-- What is hashed for the leaf keys of the outpoints of `D` and for the root of `s`. -/
inductive Hashed (D : Set OutPoint) (s : UtxoSet) : List UInt8 → Prop where
  | key {op : OutPoint} (hop : op ∈ D) : Hashed D s (keyPreimage op)
  | value {op : OutPoint} {entry : UtxoEntry} {bytes : List UInt8}
      (hop : s.utxos.lookup op = some entry) (hbytes : entry.output.serialize = .ok bytes) :
      Hashed D s (valuePreimage bytes entry.height entry.isCoinbase)
  | node {m : LeafMap} {children : Hash256 × Hash256} (hm : LeavesOf s m)
      (hchildren : children ∈ naivePairs m) : Hashed D s (nodePreimage children)

/-- No live outpoint has the digest of an empty leaf. -/
def NonzeroValues (s : UtxoSet) : Prop :=
  ∀ op entry bytes, s.utxos.lookup op = some entry → entry.output.serialize = .ok bytes →
    leafValue bytes entry.height entry.isCoinbase ≠ Hash256.zero

theorem LeavesOf.nonzero (h : LeavesOf s m) (hne : NonzeroValues s) : NonzeroLeaves m := by
  intro key hkey
  obtain ⟨op, entry, bytes, hop, hbytes, -, hvalue⟩ := (h key _).mp hkey
  exact hne op entry bytes hop hbytes hvalue.symm

theorem injOn_leafKey (hinj : Set.InjOn Crypto.sha256 S) (hD : ∀ op ∈ D, keyPreimage op ∈ S) :
    Set.InjOn leafKey D :=
  fun op hop op' hop' h => keyPreimage_inj (hinj (hD op hop) (hD op' hop') h)

section Binding

variable {D D' : Set OutPoint} {s s' : UtxoSet} {S : Set (List UInt8)}

section

variable (h : Inv D s) (h' : Inv D' s') (hinj : Set.InjOn Crypto.sha256 S)
  (hs : ∀ x, Hashed D s x → x ∈ S) (hs' : ∀ x, Hashed D' s' x → x ∈ S)
include h h' hinj hs hs'

/-- With the same leaves, an entry of one set is one of the other. -/
theorem lookup_of_leaves (hm : LeavesOf s m)
    (hm' : LeavesOf s' m) (hop : s.utxos.lookup op = some entry) : s'.utxos.lookup op = some entry := by
  obtain ⟨bytes, hbytes⟩ := h.serializes op entry hop
  have hleaf := (hm (leafKey op) _).mpr ⟨op, entry, bytes, hop, hbytes, rfl, rfl⟩
  obtain ⟨op', entry', bytes', hop', hbytes', hkey, hvalue⟩ := (hm' _ _).mp hleaf
  have hlive : op ∈ D := h.live op (Finmap.mem_of_lookup_eq_some hop)
  have hlive' : op' ∈ D' := h'.live op' (Finmap.mem_of_lookup_eq_some hop')
  obtain rfl : op = op' :=
    keyPreimage_inj (hinj (hs _ (.key hlive)) (hs' _ (.key hlive')) hkey)
  obtain rfl : entry = entry' := valuePreimage_inj hbytes hbytes'
    (hinj (hs _ (.value hop hbytes)) (hs' _ (.value hop' hbytes')) hvalue)
  exact hop'

theorem Inv.utxos_eq (hne : NonzeroValues s)
    (hne' : NonzeroValues s') (hroot : s.stateRoot = s'.stateRoot) : s.utxos = s'.utxos := by
  obtain ⟨m, hmaps, hm⟩ := h.tree
  obtain ⟨m', hmaps', hm'⟩ := h'.tree
  rw [stateRoot, stateRoot, hmaps.root_eq, hmaps'.root_eq] at hroot
  obtain rfl : m = m' := naiveRoot_inj hinj (fun x hx => hs _ (.node hm hx))
    (fun x hx => hs' _ (.node hm' hx)) (hm.nonzero hne) (hm'.nonzero hne') hroot
  refine Finmap.ext_lookup fun op => Option.ext fun entry => ⟨?_, ?_⟩
  · exact lookup_of_leaves h h' hinj hs hs' hm hm'
  · exact lookup_of_leaves h' h hinj hs' hs hm' hm

end

end Binding

/-- The outpoints that some of the calls may add. -/
def added (ops : List Op) : Set OutPoint :=
  { op | ∃ o ∈ ops, op ∈ o.adds }

/-- The sets two sequences of calls lead to have the same state root exactly if they hold the same
entries at the same outpoints, provided SHA-256 has no collision among what is hashed for them and
no leaf has the digest of an empty one. -/
theorem stateRoot_binding (ops ops' : List Op) : let s := ops.foldl Op.run UtxoSet.new
    let s' := ops'.foldl Op.run UtxoSet.new
    Set.InjOn Crypto.sha256 { x | Hashed (added ops) s x ∨ Hashed (added ops') s' x } →
      NonzeroValues s → NonzeroValues s' →
        (s.stateRoot = s'.stateRoot ↔ s.utxos = s'.utxos) := by
  intro s s' hinj hne hne'
  have hsteps : Steps (added ops) UtxoSet.new s :=
    run_steps UtxoSet.new fun o ho op hop => ⟨o, ho, hop⟩
  have hsteps' : Steps (added ops') UtxoSet.new s' :=
    run_steps UtxoSet.new fun o ho op hop => ⟨o, ho, hop⟩
  have h := hsteps.inv (injOn_leafKey hinj fun op hop => .inl (.key hop)) (inv_new _)
  have h' := hsteps'.inv (injOn_leafKey hinj fun op hop => .inr (.key hop)) (inv_new _)
  constructor
  · exact h.utxos_eq h' hinj (fun _ => .inl) (fun _ => .inr) hne hne'
  · exact h.stateRoot_eq h'

/-! ## Sets of one entry -/

/-- A number as a digest. -/
def digest (n : Nat) : Hash256 :=
  hashOfBytes (leBytes 32 n)

/-- A hash for concrete sets: an inner node is one more than its left child, a leaf key zero, and
anything else a thousand for each unit of its first byte and one more. -/
def leftHash (bs : List UInt8) : Hash256 :=
  if bs.length = 64 then digest (leNat (bs.take 32) + 1)
  else if bs.length = 48 then digest 0
  else digest (1000 * ((bs.headD 0).toNat + 1))

/-- What `leftHash` maps to a digest, among what is hashed for sets that have their one entry at
`op`; `value` gives the leaf for the thousands of a digest. -/
def leftPreimage (op : OutPoint) (value : Nat → List UInt8) (h : Hash256) : List UInt8 :=
  let n := leNat h.toList
  if n = 0 then keyPreimage op
  else if n % 1000 = 0 then value (n / 1000)
  else nodePreimage (digest (n - 1), digest ((n - 1) % 1000))

omit [Crypto] in
theorem leNat_digest (h : n < 256 ^ 32) : leNat (digest n).toList = n := by
  have hlength : (leBytes 32 n).length = 32 := length_leBytes 32 n
  have htakes : (leBytes 32 n).take 32 = (digest n).toList := (takes_hash hlength.ge).2
  rw [← htakes, List.take_of_length_le hlength.le, leNat_leBytes h]

section LeftHash

variable (hhash : (Crypto.sha256 : List UInt8 → Hash256) = leftHash) {h : Nat}
include hhash

theorem nodeHash_left (h : n < 256 ^ 32) (r : Hash256) : nodeHash (digest n) r = digest (n + 1) := by
  rw [nodeHash, hhash, leftHash, if_pos (by simp), List.take_left' (by simp), leNat_digest h]

theorem keyHash_left (op : OutPoint) : Crypto.sha256 (keyPreimage op) = digest 0 := by
  have hlength : (keyPreimage op).length = 48 := by
    simp only [keyPreimage, List.length_cons, List.length_append, Vector.length_toList, length_leBytes]
    rfl
  rw [hhash, leftHash, if_neg (by omega), if_pos hlength]

theorem valueHash_left (h0 : bytes ≠ []) (h64 : bytes.length ≠ 55) (h48 : bytes.length ≠ 39)
    (height : UInt64) (isCoinbase : Bool) : Crypto.sha256 (valuePreimage bytes height isCoinbase) =
      digest (1000 * ((bytes.headD 0).toNat + 1)) := by
  have hlength : (valuePreimage bytes height isCoinbase).length = bytes.length + 9 := by
    simp [valuePreimage]
  have hhead : (valuePreimage bytes height isCoinbase).headD 0 = bytes.headD 0 := by
    cases bytes with
    | nil => exact absurd rfl h0
    | cons b bytes => rfl
  rw [hhash, leftHash, if_neg (by omega), if_neg (by omega), hhead]

open Classical in
/-- With a leaf only at the leftmost position, a subtree is one for each level, added to the leaf if
it has that position. -/
theorem treeHash_left (hv : v < 256 ^ 31)
    (hleaf : ∀ p, leaf p = digest (if Agree 256 p fun _ => false then v else 0))
    (hd : d + h = 256) (p : Nat → Bool) :
    treeHash nodeHash leaf h d p = digest ((if Agree d p fun _ => false then v else 0) + h) := by
  induction h generalizing d p with
  | zero =>
    obtain rfl : d = 256 := hd
    rw [treeHash, hleaf, Nat.add_zero]
  | succ h ih =>
    have hupdate : Agree (d + 1) (Function.update p d false) (fun _ => false) ↔
        Agree d p fun _ => false := by
      rw [agree_update]
      exact and_iff_left rfl
    rw [treeHash, ih (by omega), nodeHash_left hhash, if_congr hupdate rfl rfl, Nat.add_assoc]
    split <;> omega

open Classical in
theorem treePairs_left (hv : v < 256 ^ 31)
    (hleaf : ∀ p, leaf p = digest (if Agree 256 p fun _ => false then v else 0))
    (hd : d + h = 256) (hx : x ∈ treePairs nodeHash leaf h d p) :
    ∃ i < 256, ∃ a, (a = 0 ∨ a = v) ∧ x = (digest (a + i), digest i) := by
  induction h generalizing d p with
  | zero => exact absurd hx (Set.notMem_empty x)
  | succ h ih =>
    rcases hx with rfl | hx | hx
    · have hright : ¬ Agree (d + 1) (Function.update p d true) fun _ => false := by
        rw [agree_update]
        exact fun h => Bool.noConfusion h.2
      have htree := fun p => treeHash_left hhash hv hleaf (h := h) (d := d + 1) (by omega) p
      rw [htree, htree, if_neg hright, Nat.zero_add]
      refine ⟨h, by omega, _, ?_, rfl⟩
      split
      · exact .inr rfl
      · exact .inl rfl
    · exact ih (by omega) hx
    · exact ih (by omega) hx

omit [Crypto] hhash in
theorem keyBit_digest_zero (hi : i < 256) : keyBit (digest 0) i = false := by
  have hzero : digest 0 = Hash256.zero := by decide
  rw [keyBit_eq_testBit _ hi, hzero]
  simp [Hash256.zero]

end LeftHash

/-- The set has one entry, whose leaf `leftHash` maps to `a` thousands. -/
structure OneEntry (s : UtxoSet) (op : OutPoint) (entry : UtxoEntry) (bytes : List UInt8) (a : Nat) :
    Prop where
  utxos : s.utxos = (∅ : Map OutPoint UtxoEntry).insert op entry
  serialize : entry.output.serialize = .ok bytes
  value : leafValue bytes entry.height entry.isCoinbase = digest (1000 * a)
  pos : 0 < a
  small : a < 256 ^ 29

section OneEntry

variable {s : UtxoSet} {op : OutPoint} {entry : UtxoEntry} {bytes : List UInt8} {a : Nat}

theorem OneEntry.live (h : OneEntry s op entry bytes a) (hop : s.utxos.lookup op' = some entry')
    (hbytes : entry'.output.serialize = .ok bytes') : op' = op ∧ entry' = entry ∧ bytes' = bytes := by
  rw [h.utxos, Map.lookup_insert_eq] at hop
  split at hop <;> cases hop
  rw [h.serialize] at hbytes
  exact ⟨‹_›, rfl, (Except.ok.inj hbytes).symm⟩

theorem OneEntry.nonzero (h : OneEntry s op entry bytes a) : NonzeroValues s := by
  intro op' entry' bytes' hop hbytes hzero
  obtain ⟨rfl, rfl, rfl⟩ := h.live hop hbytes
  have hnat := congrArg (fun x => leNat x.toList) (h.value.symm.trans hzero)
  have hsmall := h.small
  have hpos := h.pos
  simp only [leNat_digest (show 1000 * a < 256 ^ 32 by omega)] at hnat
  have hzero : leNat Hash256.zero.toList = 0 := by decide
  omega

variable (hhash : (Crypto.sha256 : List UInt8 → Hash256) = leftHash)
include hhash

open Classical in
theorem OneEntry.naiveLeaf (h : OneEntry s op entry bytes a) (hm : LeavesOf s m) (p : Nat → Bool) :
    naiveLeaf m.lookup p = digest (if Agree 256 p fun _ => false then 1000 * a else 0) := by
  have hkey : keyOfBits p = digest 0 ↔ Agree 256 p fun _ => false := by
    refine keyOfBits_eq_iff.trans (forall₂_congr fun i hi => ?_)
    rw [keyBit_digest_zero hi]
  have hlookup : ∀ key leaf, m.lookup key = some leaf ↔
      key = digest 0 ∧ leaf = digest (1000 * a) := by
    intro key leaf
    rw [hm]
    constructor
    · rintro ⟨op', entry', bytes', hop, hbytes, rfl, rfl⟩
      obtain ⟨rfl, rfl, rfl⟩ := h.live hop hbytes
      exact ⟨keyHash_left hhash _, h.value⟩
    · rintro ⟨rfl, rfl⟩
      refine ⟨op, entry, bytes, ?_, h.serialize, (keyHash_left hhash _).symm, h.value.symm⟩
      rw [h.utxos, Map.lookup_insert_eq, if_pos rfl]
  rw [Spec.naiveLeaf]
  split
  · rw [(hlookup _ _).mpr ⟨hkey.mpr ‹_›, rfl⟩, Option.getD_some]
  · cases hleaf : m.lookup (keyOfBits p) with
    | none => rfl
    | some leaf => exact absurd (hkey.mp ((hlookup _ _).mp hleaf).1) ‹_›

/-- `leftPreimage` undoes the hash. -/
theorem OneEntry.leftPreimage (h : OneEntry s op entry bytes a) (hD : ∀ op' ∈ D, op' = op)
    {value : Nat → List UInt8}
    (hvalue : value a = valuePreimage bytes entry.height entry.isCoinbase) {x : List UInt8}
    (hx : Hashed D s x) : leftPreimage op value (Crypto.sha256 x) = x := by
  have hsmall := h.small
  have hpos := h.pos
  cases hx with
  | key hop =>
    rw [hD _ hop, keyHash_left hhash, UtxoSet.leftPreimage, leNat_digest (by decide), if_pos rfl]
  | value hop hbytes =>
    obtain ⟨rfl, rfl, rfl⟩ := h.live hop hbytes
    have hleaf := h.value
    rw [leafValue] at hleaf
    rw [valuePreimage, hleaf, UtxoSet.leftPreimage, leNat_digest (by omega), if_neg (by omega),
      if_pos (by omega), Nat.mul_div_cancel_left _ (by decide), hvalue]
    rfl
  | node hm hchildren =>
    obtain ⟨i, hi, b, hb, rfl⟩ := treePairs_left hhash (by omega) (h.naiveLeaf hhash hm)
      (Nat.zero_add _) hchildren
    have hnode : Crypto.sha256 (nodePreimage (digest (b + i), digest i)) = digest (b + i + 1) :=
      nodeHash_left hhash (by omega) (digest i)
    rw [hnode, UtxoSet.leftPreimage, leNat_digest (by omega), if_neg (by omega), if_neg (by omega),
      Nat.add_sub_cancel, show (b + i) % 1000 = i by omega]

end OneEntry

/-- An output of the given value at the null outpoint. -/
def singleEntry (value : UInt64) : UtxoEntry :=
  ⟨⟨value, [], none, none⟩, 0, false⟩

/-- The calls that lead to a set of one entry. -/
def single (value : UInt64) : List Op :=
  [.insert ⟨Hash256.zero, 0⟩ (singleEntry value)]

omit [Crypto] in
theorem singleEntry_serialize (value : UInt64) : (singleEntry value).output.serialize =
    .ok (leBytes 8 value.toNat ++ [0, 0, 0, 0]) := by
  have hbytes : (singleEntry value).output.serialize =
      .ok (leBytes 8 value.toNat ++ (leBytes 2 0 ++ []) ++ [0] ++ [0]) := rfl
  have hscript : leBytes 2 0 = [0, 0] := by decide
  rw [hbytes, hscript, List.append_assoc, List.append_assoc]
  rfl

theorem single_oneEntry (hhash : (Crypto.sha256 : List UInt8 → Hash256) = leftHash) (value : UInt64)
    (hvalue : value.toNat < 256) :
    OneEntry ((single value).foldl Op.run UtxoSet.new) ⟨Hash256.zero, 0⟩ (singleEntry value)
      (leBytes 8 value.toNat ++ [0, 0, 0, 0]) (value.toNat + 1) where
  utxos := rfl
  serialize := singleEntry_serialize value
  value := by
    refine (valueHash_left hhash (by simp) (by simp) (by simp) _ _).trans ?_
    simp [leBytes, Nat.mod_eq_of_lt hvalue]
  pos := Nat.succ_pos _
  small := by omega

omit [Crypto] in
/-- Under `leftHash` the theorem tells the outputs of values 1 and 2 apart. -/
theorem stateRoot_binding_single : let _ : Crypto := Crypto.ofHash leftHash
    ((single 1).foldl Op.run UtxoSet.new).stateRoot ≠
      ((single 2).foldl Op.run UtxoSet.new).stateRoot := by
  intro _ hroot
  have hhash : (Crypto.sha256 : List UInt8 → Hash256) = leftHash := rfl
  have h1 := single_oneEntry hhash 1 (by decide)
  have h2 := single_oneEntry hhash 2 (by decide)
  have hD : ∀ value : UInt64, ∀ op ∈ added (single value), op = ⟨Hash256.zero, 0⟩ := by
    rintro value op ⟨o, ho, hop⟩
    obtain rfl := List.mem_singleton.mp ho
    exact hop
  have hpre : Set.LeftInvOn
      (leftPreimage ⟨Hash256.zero, 0⟩ fun a =>
        valuePreimage (leBytes 8 (a - 1) ++ [0, 0, 0, 0]) 0 false) Crypto.sha256
      { x | Hashed (added (single 1)) ((single 1).foldl Op.run UtxoSet.new) x ∨
        Hashed (added (single 2)) ((single 2).foldl Op.run UtxoSet.new) x } := by
    rintro x (hx | hx)
    · exact h1.leftPreimage hhash (hD 1) rfl hx
    · exact h2.leftPreimage hhash (hD 2) rfl hx
  have h := (stateRoot_binding (single 1) (single 2) hpre.injOn h1.nonzero h2.nonzero).mp hroot
  rw [h1.utxos, h2.utxos] at h
  have h := congrArg (Finmap.lookup ⟨Hash256.zero, 0⟩) h
  exact absurd h (by decide)

end UtxoSet

end Exfer.Proof
