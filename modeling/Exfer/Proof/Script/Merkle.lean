import Exfer.Proof.Script.Unfold
import Exfer.Spec.Script.Merkle

/-!
# Program hashes

The bytes of a constant, with or without its scalars (`encode`), tell where the constant ends if its
lengths fit their four bytes (`encode_append_inj`). So what is hashed for a tree determines it, given that
the hashes of its arguments determine these (`bufOfTree_inj`), and where nothing collides the hash
determines the whole tree (`hashOfTree_eq_iff`). The bottom-up pass over an arena computes the hashes of
the trees its nodes unfold to (`hashNodes_eq`). Together these give `merkleHash_identifies`.
-/

namespace Exfer.Proof.Script

open Lib Impl Impl.Script Spec.Script

variable {d' : Hash256} {keep : Bool} {v : Value} {hash : ScriptTree → Hash256}

/-! ## Constants -/

mutual

/-- The bytes of a value, with or without its scalars. -/
def encode (keep : Bool) : Value → List UInt8
  | .unit => [0x00]
  | .left v => 0x01 :: encode keep v
  | .right v => 0x02 :: encode keep v
  | .pair a b => 0x03 :: (encode keep a ++ encode keep b)
  | .list vs => 0x04 :: (leBytes 4 vs.length ++ encodeList keep vs)
  | .bytes bs => 0x05 :: (if keep then leBytes 4 bs.length ++ bs else [])
  | .u64 n => 0x06 :: (if keep then leBytes 8 n.toNat else [])
  | .u256 data => 0x07 :: (if keep then data.toList else [])
  | .bool b => 0x08 :: (if keep then [if b then 1 else 0] else [])
  | .hash h => 0x09 :: (if keep then h.toList else [])

/-- The elements of a list, one after another. -/
def encodeList (keep : Bool) : List Value → List UInt8
  | [] => []
  | v :: vs => encode keep v ++ encodeList keep vs

end

mutual

theorem encode_true : ∀ v, encode true v = v.serialize
  | .unit | .bytes _ | .u64 _ | .u256 _ | .bool _ | .hash _ => rfl
  | .left v | .right v => congrArg _ (encode_true v)
  | .pair a b => by rw [encode, encode_true a, encode_true b, Value.serialize]
  | .list vs => by rw [encode, encodeList_true vs, Value.serialize]

theorem encodeList_true : ∀ vs, encodeList true vs = Value.serializeList vs
  | [] => rfl
  | v :: vs => by rw [encodeList, encode_true v, encodeList_true vs, Value.serializeList]

end

mutual

theorem encode_false : ∀ v, encode false v = v.structuralSkeleton
  | .unit | .bytes _ | .u64 _ | .u256 _ | .bool _ | .hash _ => rfl
  | .left v | .right v => congrArg _ (encode_false v)
  | .pair a b => by rw [encode, encode_false a, encode_false b, Value.structuralSkeleton]
  | .list vs => by rw [encode, encodeList_false vs, Value.structuralSkeleton]

theorem encodeList_false : ∀ vs, encodeList false vs = Value.skeletonList vs
  | [] => rfl
  | v :: vs => by rw [encodeList, encode_false v, encodeList_false vs, Value.skeletonList]

end

/-- What the bytes of a value tell of it. -/
def told (keep : Bool) (v : Value) : Value :=
  if keep then v else eraseScalars v

/-- What the bytes of the elements of a list tell of them. -/
def toldList (keep : Bool) (vs : List Value) : List Value :=
  if keep then vs else eraseScalarsList vs

section

variable (keep : Bool)

theorem told_left (v : Value) : told keep (.left v) = .left (told keep v) := by cases keep <;> rfl

theorem told_right (v : Value) : told keep (.right v) = .right (told keep v) := by cases keep <;> rfl

theorem told_pair (a b : Value) : told keep (.pair a b) = .pair (told keep a) (told keep b) := by
  cases keep <;> rfl

theorem told_list (vs : List Value) : told keep (.list vs) = .list (toldList keep vs) := by
  cases keep <;> rfl

theorem toldList_cons (v : Value) (vs : List Value) :
    toldList keep (v :: vs) = told keep v :: toldList keep vs := by
  cases keep <;> rfl

end

theorem lengths_inj (hm : m < 2 ^ 32) (hn : n < 2 ^ 32) (h : leBytes 4 m ++ r = leBytes 4 n ++ r') :
    m = n ∧ r = r' := by
  obtain ⟨hlen, hr⟩ := List.append_inj h (by simp)
  exact ⟨leBytes_inj hm hn hlen, hr⟩

theorem digest_inj (h : d.toList ++ r = d'.toList ++ r') : d = d' ∧ r = r' := by
  obtain ⟨hd, hr⟩ := List.append_inj h (by simp)
  exact ⟨Vector.toList_inj.mp hd, hr⟩

/-- The scalars, if they are kept, determine the value. -/
theorem scalar_inj (herase : eraseScalars v = eraseScalars w) (hinj : x ++ r = y ++ r' → v = w ∧ r = r')
    (h : (if keep then x else []) ++ r = (if keep then y else []) ++ r') : told keep v = told keep w ∧ r = r' := by
  cases keep with
  | false => exact ⟨herase, h⟩
  | true => exact hinj h

mutual

/-- The bytes of a short value tell where it ends. -/
theorem encode_append_inj (keep : Bool) : ∀ (v w : Value) {r r' : List UInt8}, Short v → Short w →
    encode keep v ++ r = encode keep w ++ r' → told keep v = told keep w ∧ r = r'
  | v, w, r, r', hv, hw, h => by
    -- different constructors have different tags
    cases v <;> cases w <;> try exact absurd (List.cons.inj h).1 (by decide)
    case unit.unit => exact ⟨rfl, (List.cons.inj h).2⟩
    case left.left v w =>
      obtain ⟨hvw, hr⟩ := encode_append_inj keep v w hv hw (List.cons.inj h).2
      exact ⟨by rw [told_left, told_left, hvw], hr⟩
    case right.right v w =>
      obtain ⟨hvw, hr⟩ := encode_append_inj keep v w hv hw (List.cons.inj h).2
      exact ⟨by rw [told_right, told_right, hvw], hr⟩
    case pair.pair a b a' b' =>
      have hab : encode keep a ++ (encode keep b ++ r) = encode keep a' ++ (encode keep b' ++ r') := by
        rw [← List.append_assoc, ← List.append_assoc]
        exact (List.cons.inj h).2
      obtain ⟨ha, hbr⟩ := encode_append_inj keep a a' hv.1 hw.1 hab
      obtain ⟨hb, hr⟩ := encode_append_inj keep b b' hv.2 hw.2 hbr
      exact ⟨by rw [told_pair, told_pair, ha, hb], hr⟩
    case list.list vs ws =>
      have hbody : leBytes 4 vs.length ++ (encodeList keep vs ++ r) =
          leBytes 4 ws.length ++ (encodeList keep ws ++ r') := by
        exact (List.cons.inj h).2
      obtain ⟨hlen, hvr⟩ := lengths_inj hv.1 hw.1 hbody
      obtain ⟨hvs, hr⟩ := encodeList_append_inj keep vs ws hv.2 hw.2 hlen hvr
      exact ⟨by rw [told_list, told_list, hvs], hr⟩
    all_goals refine scalar_inj rfl (fun hs => ?_) (List.cons.inj h).2
    case bytes.bytes =>
      obtain ⟨hlen, hbody⟩ := lengths_inj hv hw hs
      obtain ⟨hbs, hr⟩ := List.append_inj hbody hlen
      exact ⟨congrArg _ hbs, hr⟩
    case u64.u64 n n' =>
      obtain ⟨hbytes, hr⟩ := List.append_inj hs (by simp)
      have hn := leBytes_inj n.toNat_lt n'.toNat_lt hbytes
      exact ⟨congrArg _ (UInt64.toNat_inj.mp hn), hr⟩
    case bool.bool b b' =>
      obtain ⟨hb, hr⟩ := List.cons.inj hs
      refine ⟨?_, hr⟩
      cases b <;> cases b' <;> first | rfl | exact absurd hb (by decide)
    case u256.u256 | hash.hash =>
      obtain ⟨hd, hr⟩ := digest_inj hs
      exact ⟨congrArg _ hd, hr⟩

theorem encodeList_append_inj (keep : Bool) : ∀ (vs ws : List Value) {r r' : List UInt8}, ShortList vs →
    ShortList ws → vs.length = ws.length →
    encodeList keep vs ++ r = encodeList keep ws ++ r' → toldList keep vs = toldList keep ws ∧ r = r'
  | [], [], _, _, _, _, _, h => ⟨rfl, h⟩
  | v :: vs, w :: ws, r, r', hv, hw, hlen, h => by
    have hbody : encode keep v ++ (encodeList keep vs ++ r) =
        encode keep w ++ (encodeList keep ws ++ r') := by
      rw [← List.append_assoc, ← List.append_assoc]
      exact h
    obtain ⟨hvw, hrest⟩ := encode_append_inj keep v w hv.1 hw.1 hbody
    obtain ⟨hvs, hr⟩ := encodeList_append_inj keep vs ws hv.2 hw.2 (Nat.succ.inj hlen) hrest
    exact ⟨by rw [toldList_cons, toldList_cons, hvw, hvs], hr⟩

end

mutual

/-- Values of one shape have one skeleton. -/
theorem encode_eraseScalars : ∀ v, encode false (eraseScalars v) = encode false v
  | .unit | .bytes _ | .u64 _ | .u256 _ | .bool _ | .hash _ => rfl
  | .left v | .right v => congrArg (_ :: ·) (encode_eraseScalars v)
  | .pair a b => by
    rw [eraseScalars, encode, encode, encode_eraseScalars a, encode_eraseScalars b]
  | .list vs => by
    obtain ⟨hvs, hlen⟩ := encodeList_eraseScalars vs
    rw [eraseScalars, encode, encode, hvs, hlen]

theorem encodeList_eraseScalars : ∀ vs, encodeList false (eraseScalarsList vs) = encodeList false vs ∧
    (eraseScalarsList vs).length = vs.length
  | [] => ⟨rfl, rfl⟩
  | v :: vs => by
    obtain ⟨hvs, hlen⟩ := encodeList_eraseScalars vs
    rw [eraseScalarsList, encodeList, encodeList, encode_eraseScalars v, hvs, List.length_cons, hlen]
    exact ⟨rfl, rfl⟩

end

/-- The bytes of short values are equal exactly where they tell the same. -/
theorem encode_eq_iff (hv : Short v) (hw : Short w) :
    encode keep v = encode keep w ↔ told keep v = told keep w := by
  constructor
  · intro h
    exact (encode_append_inj keep v w hv hw (by rw [h] : encode keep v ++ [] = encode keep w ++ [])).1
  · intro h
    cases keep with
    | true =>
      have hvw : v = w := h
      rw [hvw]
    | false =>
      have hvw : eraseScalars v = eraseScalars w := h
      rw [← encode_eraseScalars v, hvw, encode_eraseScalars]

/-! ## Trees -/

/-- The arguments of a tree's root. -/
def treeArgs : ScriptTree → List ScriptTree
  | .take f | .drop f | .injL f | .injR f => [f]
  | .comp f g | .pair f g | .case f g | .fold f g _ | .listFold f g => [f, g]
  | _ => []

/-- What is hashed for the root of a tree, given the hashes of its arguments. -/
def bufOfTree (keep : Bool) (hash : ScriptTree → Hash256) : ScriptTree → List UInt8
  | .iden => [0x00]
  | .comp f g => 0x01 :: ((hash f).toList ++ (hash g).toList)
  | .unit => [0x02]
  | .pair f g => 0x03 :: ((hash f).toList ++ (hash g).toList)
  | .take f => 0x04 :: (hash f).toList
  | .drop f => 0x05 :: (hash f).toList
  | .injL f => 0x06 :: (hash f).toList
  | .injR f => 0x07 :: (hash f).toList
  | .case f g => 0x08 :: ((hash f).toList ++ (hash g).toList)
  | .fold f z k => 0x09 :: ((hash f).toList ++ (hash z).toList ++ leBytes 8 k.toNat)
  | .listFold f z => 0x0A :: ((hash f).toList ++ (hash z).toList)
  | .jet id => 0x0B :: leBytes 4 id.toU32
  | .witness => [0x0C]
  | .merkleHidden _ => []
  | .const v => 0x0E :: encode keep v

/-- A property of a tree and of every tree in it. -/
inductive Everywhere (P : ScriptTree → Prop) : ScriptTree → Prop
  | mk {t : ScriptTree} : P t → (∀ s ∈ treeArgs t, Everywhere P s) → Everywhere P t

theorem Everywhere.imp (h : Everywhere P t) (hPQ : ∀ t, P t → Q t) : Everywhere Q t := by
  induction h with
  | mk hroot _ ih => exact ⟨hPQ _ hroot, ih⟩

/-- The root of a tree is not hidden, and a short value if it is a constant. -/
def Plain : ScriptTree → Prop
  | .merkleHidden _ => False
  | .const v => Short v
  | _ => True

theorem Plain.not_hidden (h : Plain t) (hash : Hash256) : t ≠ .merkleHidden hash := by
  rintro rfl
  exact h

theorem digests_inj {e e' : Hash256} (h : d.toList ++ e.toList = d'.toList ++ e'.toList) : d = d' ∧ e = e' := by
  obtain ⟨hd, he⟩ := digest_inj h
  exact ⟨hd, Vector.toList_inj.mp he⟩

theorem jetIds_inj {j j' : JetId} (h : leBytes 4 j.toU32 = leBytes 4 j'.toU32) : j = j' := by
  have hlt (j : JetId) : j.toU32 < 256 ^ 4 := by cases j <;> decide
  have heq := leBytes_inj (hlt j) (hlt j') h
  have hback (j : JetId) : JetId.fromU32 j.toU32 = some j := by cases j <;> rfl
  exact Option.some.inj (by rw [← hback j, ← hback j', heq])

section inversion

variable {M : ScriptTree → ScriptTree}

theorem one_arg (hargs : ∀ s ∈ [f], ∀ s' ∈ [f'], hash s = hash s' → M s = M s')
    (h : (hash f).toList = (hash f').toList) : M f = M f' :=
  hargs f List.mem_cons_self f' List.mem_cons_self (Vector.toList_inj.mp h)

theorem two_args (hargs : ∀ s ∈ [f, g], ∀ s' ∈ [f', g'], hash s = hash s' → M s = M s')
    (h : (hash f).toList ++ (hash g).toList = (hash f').toList ++ (hash g').toList) : M f = M f' ∧ M g = M g' := by
  obtain ⟨hf, hg⟩ := digests_inj h
  exact ⟨hargs f (by simp) f' (by simp) hf, hargs g (by simp) g' (by simp) hg⟩

end inversion

/-- What is hashed for a root determines it, if the hashes of its arguments determine these. -/
theorem bufOfTree_inj (ht : Plain t) (hu : Plain u)
    (hargs : ∀ s ∈ treeArgs t, ∀ s' ∈ treeArgs u, hash s = hash s' → s.mapConst (told keep) =
      s'.mapConst (told keep)) (h : bufOfTree keep hash t = bufOfTree keep hash u) :
    t.mapConst (told keep) = u.mapConst (told keep) := by
  -- different constructors have different tags
  cases t with
  | merkleHidden hash => exact False.elim ht
  | iden | unit | witness =>
    cases u <;> first
      | rfl
      | exact False.elim hu
      | exact absurd (List.cons.inj h).1 (by decide)
  | take f | drop f | injL f | injR f =>
    cases u <;> first
      | exact absurd (List.cons.inj h).1 (by decide)
      | exact False.elim hu
      | rw [ScriptTree.mapConst, ScriptTree.mapConst, one_arg hargs (List.cons.inj h).2]
  | comp f g | pair f g | case f g | listFold f g =>
    cases u <;> first
      | exact absurd (List.cons.inj h).1 (by decide)
      | exact False.elim hu
      | obtain ⟨hf, hg⟩ := two_args hargs (List.cons.inj h).2
        rw [ScriptTree.mapConst, ScriptTree.mapConst, hf, hg]
  | fold f g k =>
    cases u with
    | fold f' g' k' =>
      obtain ⟨hfg, hk⟩ := List.append_inj (List.cons.inj h).2 (by simp)
      obtain ⟨hf, hg⟩ := two_args hargs hfg
      have hk := UInt64.toNat_inj.mp (leBytes_inj k.toNat_lt k'.toNat_lt hk)
      rw [ScriptTree.mapConst, ScriptTree.mapConst, hf, hg, hk]
    | merkleHidden => exact False.elim hu
    | _ => exact absurd (List.cons.inj h).1 (by decide)
  | jet id =>
    cases u with
    | jet id' => rw [jetIds_inj (List.cons.inj h).2]
    | merkleHidden => exact False.elim hu
    | _ => exact absurd (List.cons.inj h).1 (by decide)
  | const v =>
    cases u with
    | const w =>
      rw [ScriptTree.mapConst, ScriptTree.mapConst, (encode_eq_iff ht hu).mp (List.cons.inj h).2]
    | merkleHidden => exact False.elim hu
    | _ => exact absurd (List.cons.inj h).1 (by decide)

theorem mapConst_id (t : ScriptTree) : t.mapConst (told true) = t := by
  induction t with
  | iden | unit | jet | witness | merkleHidden | const => rfl
  | take f hf | drop f hf | injL f hf | injR f hf => rw [ScriptTree.mapConst, hf]
  | comp f g hf hg | pair f g hf hg | case f g hf hg | fold f g k hf hg | listFold f g hf hg =>
    rw [ScriptTree.mapConst, hf, hg]

section

variable [Crypto] (keep : Bool)

/-- The hash of a tree. -/
def hashOfTree : ScriptTree → Hash256
  | .iden => digest [0x00]
  | .comp f g => digest (0x01 :: ((hashOfTree f).toList ++ (hashOfTree g).toList))
  | .unit => digest [0x02]
  | .pair f g => digest (0x03 :: ((hashOfTree f).toList ++ (hashOfTree g).toList))
  | .take f => digest (0x04 :: (hashOfTree f).toList)
  | .drop f => digest (0x05 :: (hashOfTree f).toList)
  | .injL f => digest (0x06 :: (hashOfTree f).toList)
  | .injR f => digest (0x07 :: (hashOfTree f).toList)
  | .case f g => digest (0x08 :: ((hashOfTree f).toList ++ (hashOfTree g).toList))
  | .fold f z k => digest (0x09 :: ((hashOfTree f).toList ++ (hashOfTree z).toList ++ leBytes 8 k.toNat))
  | .listFold f z => digest (0x0A :: ((hashOfTree f).toList ++ (hashOfTree z).toList))
  | .jet id => digest (0x0B :: leBytes 4 id.toU32)
  | .witness => digest [0x0C]
  | .merkleHidden hash => hash
  | .const v => digest (0x0E :: encode keep v)
where
  /-- The hash of a buffer. -/
  digest (buf : List UInt8) : Hash256 := Hash256.domainHash Program.scriptDomain buf

theorem hashOfTree_eq (h : ∀ hash, t ≠ .merkleHidden hash) :
    hashOfTree keep t = Hash256.domainHash Program.scriptDomain (bufOfTree keep (hashOfTree keep) t) := by
  cases t <;> first | rfl | exact absurd rfl (h _)

theorem hashOfTree_told (t : ScriptTree) : hashOfTree keep (t.mapConst (told keep)) = hashOfTree keep t := by
  induction t with
  | iden | unit | jet | witness | merkleHidden => rfl
  | take f hf | drop f hf | injL f hf | injR f hf => rw [ScriptTree.mapConst, hashOfTree, hashOfTree, hf]
  | comp f g hf hg | pair f g hf hg | case f g hf hg | fold f g k hf hg | listFold f g hf hg =>
    rw [ScriptTree.mapConst, hashOfTree, hashOfTree, hf, hg]
  | const v =>
    rw [ScriptTree.mapConst, hashOfTree, hashOfTree]
    cases keep with
    | true => rfl
    | false => rw [told, if_neg (by decide), encode_eraseScalars]

variable {keep} {S : Set (List UInt8)}

/-- Where what is hashed does not collide, the hash tells the tree as far as the bytes of its constants tell
these. -/
theorem hashOfTree_eq_iff (hS : S.InjOn (Hash256.domainHash Program.scriptDomain))
    (ht : Everywhere (fun t => Plain t ∧ bufOfTree keep (hashOfTree keep) t ∈ S) t)
    (hu : Everywhere (fun t => Plain t ∧ bufOfTree keep (hashOfTree keep) t ∈ S) u) :
    hashOfTree keep t = hashOfTree keep u ↔ t.mapConst (told keep) = u.mapConst (told keep) := by
  constructor
  · intro h
    -- the induction is on the first tree, against any second one
    induction ht generalizing u with
    | @mk t htroot _ ih =>
      obtain ⟨huroot, huargs⟩ := hu
      rw [hashOfTree_eq keep htroot.1.not_hidden, hashOfTree_eq keep huroot.1.not_hidden] at h
      exact bufOfTree_inj htroot.1 huroot.1 (fun s hs s' hs' => ih s hs (huargs s' hs'))
        (hS htroot.2 huroot.2 h)
  · intro h
    rw [← hashOfTree_told keep t, h, hashOfTree_told]

end

/-! ## Programs -/

/-- What is hashed for a node, with or without the scalars of constants. -/
def nodeBuf (keep : Bool) : (NodeId → Hash256) → Combinator → List UInt8 :=
  if keep then Program.nodeMerkleBuf else Program.nodeStructuralBuf

/-- The buffer of a node is that of the tree it stands for, if the hashes of its children are those of
theirs. -/
theorem nodeBuf_eq (hsub : ∀ c ∈ node.children, ∀ s, sub c = some s → hashes c = hash s)
    (h : graft sub node = some t) : nodeBuf keep hashes node = bufOfTree keep hash t := by
  have hchild := exists_child_of_graft h
  cases node with
  | iden | unit | jet | witness | merkleHidden =>
    cases h
    cases keep <;> rfl
  | const v =>
    cases h
    cases keep with
    | true => exact congrArg (_ :: ·) (encode_true v).symm
    | false => exact congrArg (_ :: ·) (encode_false v).symm
  | take f | drop f | injL f | injR f =>
    obtain ⟨a, ha⟩ := hchild f List.mem_cons_self
    have hf := hsub f List.mem_cons_self a ha
    simp only [graft, ha, Option.bind_eq_bind, Option.bind_some, Option.pure_def] at h
    cases h
    cases keep <;> simp [nodeBuf, Program.nodeMerkleBuf, Program.nodeStructuralBuf, bufOfTree, hf]
  | comp f g | pair f g | case f g | fold f g | listFold f g =>
    have hg := List.mem_cons_of_mem f (List.mem_cons_self (a := g) (l := []))
    obtain ⟨a, ha⟩ := hchild f List.mem_cons_self
    obtain ⟨b, hb⟩ := hchild g hg
    have hf' := hsub f List.mem_cons_self a ha
    have hg' := hsub g hg b hb
    simp only [graft, ha, hb, Option.bind_eq_bind, Option.bind_some, Option.pure_def] at h
    cases h
    cases keep <;> simp [nodeBuf, Program.nodeMerkleBuf, Program.nodeStructuralBuf, bufOfTree, hf', hg']

theorem mem_args_of_graft (h : graft sub node = some t) (hs : s ∈ treeArgs t) :
    ∃ c ∈ node.children, sub c = some s := by
  cases node <;> simp_all [graft, Combinator.children, Option.bind_eq_some_iff] <;> grind [treeArgs]

theorem not_hidden_of_graft (hhidden : ∀ hash, node ≠ .merkleHidden hash)
    (h : graft sub node = some t) (hash : Hash256) : t ≠ .merkleHidden hash := by
  rintro rfl
  cases node <;> simp_all [graft, Option.bind_eq_some_iff]

theorem plain_of_graft (hhidden : ∀ hash, node ≠ .merkleHidden hash)
    (hshort : ∀ v, node = .const v → Short v) (h : graft sub node = some t) : Plain t := by
  cases t with
  | merkleHidden hash => exact not_hidden_of_graft hhidden h hash rfl
  | const v => exact hshort v (by cases node <;> simp_all [graft, Option.bind_eq_some_iff])
  | _ => trivial

section

variable [Crypto] {keep : Bool} {p q : Program} {trees : List ScriptTree}

/-- The hash of a node is that of the tree it stands for. -/
theorem hashBuf_eq (hsub : ∀ c ∈ node.children, ∀ s, sub c = some s → hashes c = hashOfTree keep s)
    (h : graft sub node = some t) : Program.hashBuf (nodeBuf keep) hashes node = hashOfTree keep t := by
  by_cases hhidden : ∀ hash, node ≠ .merkleHidden hash
  · rw [hashOfTree_eq keep (not_hidden_of_graft hhidden h), ← nodeBuf_eq hsub h]
    cases node <;> first | rfl | exact absurd rfl (hhidden _)
  · obtain ⟨hash, hhash⟩ := not_forall.mp hhidden
    obtain rfl := not_not.mp hhash
    cases h
    rfl

theorem hashStep_under (i : Nat) (node : Combinator) {later : List Hash256} {later' : List ScriptTree}
    (hlater : List.Forall₂ (fun h t => h = hashOfTree keep t) later later') :
    Under (fun h t => h = hashOfTree keep t)
      (Program.hashStep (Program.hashBuf (nodeBuf keep)) i node later) (unfoldStep i node later') := by
  intro t ht
  unfold unfoldStep at ht
  split at ht <;> cases ht
  rename_i t' hgraft
  refine ⟨_, rfl, hashBuf_eq (fun c _ s hs => ?_) hgraft⟩
  unfold Program.laterResult at hs ⊢
  split at hs
  · cases hs
  · obtain ⟨x, hx, rfl⟩ := forall₂_getElem? hlater hs
    rw [if_neg ‹_›, hx, Option.getD_some]

theorem hashNodes_eq (h : Unfolds p trees) :
    List.Forall₂ (fun h t => h = hashOfTree keep t) (p.hashNodes (Program.hashBuf (nodeBuf keep))) trees := by
  obtain ⟨hashes, hhashes, hrel⟩ :=
    bottomUp_under (fun i node _ _ hlater => hashStep_under i node hlater) 0 p.nodes trees h.unfoldings
  rwa [Program.hashNodes, hhashes]

theorem hash_eq_of_getElem? (h : Unfolds p trees) (ht : trees[c]? = some t) :
    (p.hashNodes (Program.hashBuf (nodeBuf keep))).getD c Hash256.zero = hashOfTree keep t := by
  obtain ⟨x, hx, rfl⟩ := forall₂_getElem? (hashNodes_eq h) ht
  rw [List.getD_eq_getElem?_getD, hx, Option.getD_some]

/-- What is hashed for the trees of a program is hashed for its nodes. -/
theorem everywhere_of_unfolds (hp : WellFormed p) (hhidden : NothingHidden p)
    (hshort : ShortConstants p) (h : Unfolds p trees) {i : Nat} (ht : trees[i]? = some t) :
    Everywhere (fun t => Plain t ∧ bufOfTree keep (hashOfTree keep) t ∈ hashedBufs (nodeBuf keep) p) t := by
  have hlen : trees.length = p.nodes.length := bottomUp_length h.unfoldings
  -- from the last node to the first
  induction hn : p.nodes.length - i using Nat.strong_induction_on generalizing i t with
  | _ n ih =>
    have hi : i < p.nodes.length := hlen ▸ (List.getElem?_eq_some_iff.mp ht).1
    obtain ⟨node, hnode⟩ : ∃ node, p.nodes[i]? = some node := ⟨_, List.getElem?_eq_getElem hi⟩
    obtain ⟨t', ht', hgraft⟩ := h.graft i node hnode
    obtain rfl : t' = t := Option.some.inj (ht'.symm.trans ht)
    have hmem := List.mem_of_getElem? hnode
    refine ⟨⟨?_, node, hmem, ?_⟩, fun s hs => ?_⟩
    · refine plain_of_graft (fun hash heq => hhidden hash (heq ▸ hmem)) (fun v heq => ?_) hgraft
      exact hshort v (heq ▸ hmem)
    · exact (nodeBuf_eq (fun c _ s hs => hash_eq_of_getElem? h hs) hgraft).symm
    · obtain ⟨c, hc, hs⟩ := mem_args_of_graft hgraft hs
      have hlt := hp.children i node hnode c hc
      exact ih (p.nodes.length - c) (by omega) hs rfl

/-- The hashes of programs are equal exactly where their trees are, as far as the hashed bytes tell. -/
theorem hash_eq_iff (keep : Bool) (hp : p.validateStructure = .ok ())
    (hq : q.validateStructure = .ok ()) (hhidden : NothingHidden p ∧ NothingHidden q)
    (hshort : ShortConstants p ∧ ShortConstants q) (ht : unfolding p = some t)
    (hu : unfolding q = some u) (hfree : CollisionFree (nodeBuf keep) p q) :
    (p.hashNodes (Program.hashBuf (nodeBuf keep))).getD p.root Hash256.zero =
        (q.hashNodes (Program.hashBuf (nodeBuf keep))).getD q.root Hash256.zero ↔
      t.mapConst (told keep) = u.mapConst (told keep) := by
  have hwf := wellFormed_of_ok hp
  have hwf' := wellFormed_of_ok hq
  obtain ⟨trees, htrees⟩ := exists_unfolds hwf
  obtain ⟨trees', htrees'⟩ := exists_unfolds hwf'
  rw [htrees.unfolding_eq] at ht
  rw [htrees'.unfolding_eq] at hu
  rw [hash_eq_of_getElem? htrees ht, hash_eq_of_getElem? htrees' hu]
  refine hashOfTree_eq_iff hfree ?_ ?_
  · exact (everywhere_of_unfolds hwf hhidden.1 hshort.1 htrees ht).imp fun _ h => ⟨h.1, .inl h.2⟩
  · exact (everywhere_of_unfolds hwf' hhidden.2 hshort.2 htrees' hu).imp fun _ h => ⟨h.1, .inr h.2⟩

/-- Where what is hashed does not collide, the Merkle hash identifies the tree of a program without hidden
nodes, and the structural one the tree up to the scalars of its constants; the lengths in the constants
must fit their four bytes. -/
theorem merkleHash_identifies (hp : p.validateStructure = .ok ()) (hq : q.validateStructure = .ok ())
    (hhidden : NothingHidden p ∧ NothingHidden q) (hshort : ShortConstants p ∧ ShortConstants q) :
    ∃ t u, unfolding p = some t ∧ unfolding q = some u ∧
      (CollisionFree Program.nodeMerkleBuf p q → (p.merkleHash = q.merkleHash ↔ t = u)) ∧
      (CollisionFree Program.nodeStructuralBuf p q →
        (p.structuralMerkleHash = q.structuralMerkleHash ↔
          t.mapConst eraseScalars = u.mapConst eraseScalars)) := by
  obtain ⟨t, ht⟩ := exists_unfolding hp
  obtain ⟨u, hu⟩ := exists_unfolding hq
  refine ⟨t, u, ht, hu, fun hfree => ?_, fun hfree => ?_⟩
  · have hiff := hash_eq_iff true hp hq hhidden hshort ht hu hfree
    rwa [mapConst_id, mapConst_id] at hiff
  · exact hash_eq_iff false hp hq hhidden hshort ht hu hfree

end

/-- A pair that uses one node twice has the hash of one that uses two equal nodes. -/
theorem merkleHash_of_shared : let _ := Crypto.ofHash fun bytes => Vector.replicate 32 (UInt8.ofNat bytes.length)
    let p : Program := ⟨[.pair 1 1, .witness], 0⟩
    let q : Program := ⟨[.pair 1 2, .witness, .witness], 0⟩
    CollisionFree Program.nodeMerkleBuf p q ∧ p.merkleHash = q.merkleHash := by
  intro _ p q
  have hbufs : hashedBufs Program.nodeMerkleBuf p ∪ hashedBufs Program.nodeMerkleBuf q ⊆
      {0x03 :: List.replicate 64 14, [0x0C]} := by
    rintro bytes (⟨node, hnode, rfl⟩ | ⟨node, hnode, rfl⟩)
    · rcases List.mem_pair.mp hnode with rfl | rfl
      · exact .inl rfl
      · exact .inr rfl
    · rcases List.mem_cons.mp hnode with rfl | hnode
      · exact .inl rfl
      · rcases List.mem_pair.mp hnode with rfl | rfl <;> exact .inr rfl
  have hfree : CollisionFree Program.nodeMerkleBuf p q := by
    refine Set.InjOn.mono hbufs ?_
    rintro x (rfl | rfl) y (rfl | rfl) h <;> first | rfl | exact absurd h (by decide)
  have hshort : ShortConstants p ∧ ShortConstants q := by simp [ShortConstants, p, q]
  have hhidden : NothingHidden p ∧ NothingHidden q := by simp [NothingHidden, p, q]
  obtain ⟨t, u, ht, hu, hmerkle, -⟩ := merkleHash_identifies (p := p) (q := q) rfl rfl hhidden hshort
  cases ht
  cases hu
  exact ⟨hfree, (hmerkle hfree).mpr rfl⟩

/-! ## Long constants -/

/-- With `m` four less than `2 ^ 32`, a pair whose first part has `2 ^ 32` bytes, a length that is written as
zero. -/
def wrapped (m : Nat) : Value :=
  .pair (.bytes (0x05 :: (leBytes 4 m ++ List.replicate (m - 1) 0))) .unit

/-- The pair that the same bytes stand for. -/
def unwrapped (m : Nat) : Value :=
  .pair (.bytes []) (.bytes (List.replicate m 0))

theorem serialize_wrapped (h : m + 4 = 2 ^ 32) : (wrapped m).serialize = (unwrapped m).serialize := by
  have hlen : (0x05 :: (leBytes 4 m ++ List.replicate (m - 1) (0 : UInt8))).length = 2 ^ 32 := by
    rw [List.length_cons, List.length_append, length_leBytes, List.length_replicate]
    omega
  have hzeros : List.replicate m (0 : UInt8) = List.replicate (m - 1) 0 ++ [0] := by
    rw [← List.replicate_succ', show m - 1 + 1 = m by omega]
  have hprefix : leBytes 4 (2 ^ 32) = leBytes 4 0 := by decide
  simp only [wrapped, unwrapped, Value.serialize, hlen, List.length_replicate, hprefix]
  rw [hzeros]
  simp

section

variable [Crypto] (v : Value)

theorem hashedBufs_const : hashedBufs Program.nodeMerkleBuf ⟨[.const v], 0⟩ = {0x0E :: v.serialize} := by
  simp [hashedBufs, Program.nodeMerkleBuf]

theorem merkleHash_const : Program.merkleHash ⟨[.const v], 0⟩ =
    Hash256.domainHash Program.scriptDomain (0x0E :: v.serialize) := rfl

end

/-- Programs with one Merkle hash, since the same bytes are hashed for both, and different trees. -/
theorem merkleHash_of_long : let _ := Crypto.ofHash fun bytes => Vector.replicate 32 (UInt8.ofNat bytes.length)
    let p : Program := ⟨[.const (wrapped 4294967292)], 0⟩
    let q : Program := ⟨[.const (unwrapped 4294967292)], 0⟩
    p.validateStructure = .ok () ∧ q.validateStructure = .ok () ∧ NothingHidden p ∧ NothingHidden q ∧
      CollisionFree Program.nodeMerkleBuf p q ∧ p.merkleHash = q.merkleHash ∧
      unfolding p ≠ unfolding q := by
  intro _ p q
  have hbytes := serialize_wrapped (m := 4294967292) rfl
  refine ⟨rfl, rfl, by simp [NothingHidden, p], by simp [NothingHidden, q], ?_, ?_, ?_⟩
  · rw [CollisionFree, hashedBufs_const, hashedBufs_const, hbytes, Set.union_self]
    exact Set.injOn_singleton _ _
  · rw [merkleHash_const, merkleHash_const, hbytes]
  · intro h
    have hconst : ScriptTree.const (wrapped 4294967292) = .const (unwrapped 4294967292) := Option.some.inj h
    have hpair : Value.pair _ Value.unit = Value.pair _ (Value.bytes _) := ScriptTree.const.inj hconst
    exact nomatch (Value.pair.inj hpair).2
end Exfer.Proof.Script
