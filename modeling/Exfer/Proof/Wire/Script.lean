import Exfer.Proof.Script.Nesting
import Exfer.Proof.Wire.Transaction

/-!
# Scripts on the wire

A value and a node are read only in the encoding they are written in (`deserializeDepth_canonical`,
`deserializeNode_canonical`), and are read back from it when they keep to the limits
(`value_reads`, `node_reads`). A constant also has to fit its length prefix: the length is
cut to 32 bits when it is written.
-/

namespace Exfer.Proof.Script

open Lib Impl Impl.Script Impl.Script.Program Spec

variable {v : Value} {vs : List Value} {data rest : List UInt8} {levels n : Nat} {node : Combinator}
  {f : NodeId} {nodes : List Combinator} {p : Program}

/-! ## Values -/

theorem serializeList_eq (vs : List Value) : Value.serializeList vs = vs.flatMap Value.serialize := by
  induction vs with
  | nil => rfl
  | cons v vs ih => rw [Value.serializeList, List.flatMap_cons, ih]

theorem deserializeElems_eq (read : List UInt8 → Except String (Value × Nat)) (count : Nat)
    (data : List UInt8) : Value.deserializeElems read count data = readMany read count data := by
  induction count generalizing data with
  | zero => rfl
  | succ count ih => simp only [Value.deserializeElems, readMany, ih]

/-- A value is accepted in one encoding only. -/
theorem deserializeDepth_canonical (levels : Nat) : Canonical (Value.deserializeDepth levels) Value.serialize := by
  induction levels with
  | zero => exact fun _ _ _ h => nomatch h
  | succ levels ih =>
    intro data v n h
    cases data with
    | nil => cases h
    | cons tag rest =>
      rw [Value.deserializeDepth] at h
      unfold Value.deserializeTagged at h
      split at h
      · cases h
        exact Takes.nil.cons 0
      · obtain ⟨⟨w, c⟩, hw, h⟩ := bind_eq_ok.mp h
        cases h
        exact (ih hw).cons 1
      · obtain ⟨⟨w, c⟩, hw, h⟩ := bind_eq_ok.mp h
        cases h
        exact (ih hw).cons 2
      · obtain ⟨⟨a, ca⟩, ha, h⟩ := bind_eq_ok.mp h
        obtain ⟨⟨b, cb⟩, hb, h⟩ := bind_eq_ok.mp h
        cases h
        rw [Nat.add_assoc]
        exact ((ih ha).append (ih hb)).cons 3
      · split at h
        · cases h
        rename_i hlen
        split at h
        · cases h
        obtain ⟨⟨vs, pos⟩, hvs, h⟩ := bind_eq_ok.mp h
        cases h
        rw [deserializeElems_eq] at hvs
        have hcount := length_readMany hvs
        rw [Value.serialize, hcount, serializeList_eq, Nat.add_assoc]
        exact ((Takes.number (Nat.not_lt.mp hlen)).append (ih.many _ hvs)).cons 4
      · split at h
        · cases h
        rename_i hlen
        split at h
        · cases h
        rename_i hdata
        cases h
        have hraw : leNat (rest.take 4) ≤ (rest.drop 4).length := by
          rw [List.length_drop]
          omega
        rw [Value.serialize, List.length_take_of_le hraw, Nat.add_assoc]
        exact ((Takes.number (Nat.not_lt.mp hlen)).append (.raw hraw)).cons 5
      · split at h
        · cases h
        rename_i hlen
        cases h
        have hn : (UInt64.ofNat (leNat (rest.take 8))).toNat = leNat (rest.take 8) :=
          UInt64.toNat_ofNat_of_lt' (leNat_take_lt (Nat.not_lt.mp hlen))
        rw [Value.serialize, hn]
        exact (Takes.number (Nat.not_lt.mp hlen)).cons 6
      · split at h
        · cases h
        rename_i hlen
        cases h
        exact (takes_hash (Nat.not_lt.mp hlen)).cons 7
      · split at h
        · cases h
        · cases h
          exact (Takes.nil.cons 0).cons 8
        · cases h
          exact (Takes.nil.cons 1).cons 8
        · cases h
      · split at h
        · cases h
        rename_i hlen
        cases h
        exact (takes_hash (Nat.not_lt.mp hlen)).cons 9
      · cases h

theorem listsFit_of_mem (h : AllListsFit vs) (hv : v ∈ vs) : ListsFit v := by
  induction vs with
  | nil => cases hv
  | cons w vs ih =>
    rcases List.mem_cons.mp hv with rfl | hv
    · exact h.1
    · exact ih h.2 hv

theorem length_serialize_le (h : v ∈ vs) : v.serialize.length ≤ (vs.flatMap Value.serialize).length := by
  obtain ⟨before, after, rfl⟩ := List.append_of_mem h
  simp
  omega

/-- A byte string is read back if its length fits. -/
theorem bytes_reads (levels : Nat) (h : bs.length < 2 ^ 32) :
    ReadsAs (Value.deserializeDepth (levels + 1)) (.bytes bs) (Value.bytes bs).serialize := by
  intro rest
  have hcount : bs.length < 256 ^ 4 := h
  rw [Value.serialize, List.cons_append, List.append_assoc, Value.deserializeDepth]
  simp only [Value.deserializeTagged, leNat_take_append hcount, drop_leBytes_append]
  simp
  omega

/-- The length of a byte string that was read fits. -/
theorem length_lt_of_read (h : Value.deserializeDepth levels data = .ok (.bytes bs, n)) : bs.length < 2 ^ 32 := by
  cases levels with
  | zero => cases h
  | succ levels =>
    -- the tag is that of a byte string
    have htake : data.take n = (Value.bytes bs).serialize := (deserializeDepth_canonical _ h).2
    obtain ⟨rest, rfl⟩ : ∃ rest, data = 0x05 :: rest := by
      refine ⟨leBytes 4 bs.length ++ bs ++ data.drop n, ?_⟩
      rw [← List.cons_append, ← Value.serialize, ← htake, List.take_append_drop]
    rw [Value.deserializeDepth] at h
    simp only [Value.deserializeTagged] at h
    split at h
    · cases h
    split at h
    · cases h
    injection h with h
    injection (Prod.mk.inj h).1 with hbs
    calc bs.length ≤ leNat (rest.take 4) := by
          rw [← hbs, List.length_take]
          exact Nat.min_le_left _ _
      _ < 256 ^ (rest.take 4).length := leNat_lt _
      _ ≤ 256 ^ 4 := Nat.pow_le_pow_right (by decide) (List.length_take_le _ _)

/-- A value within the limits is read back from its encoding. The induction is on the levels left to
the decoder. -/
theorem value_reads (hdepth : depth v < levels) (hlists : ListsFit v)
    (hfits : v.serialize.length < 2 ^ 32) : ReadsAs (Value.deserializeDepth levels) v v.serialize := by
  induction levels generalizing v with
  | zero => cases hdepth
  | succ levels ih =>
    intro rest
    cases v with
    | unit => rfl
    | left w | right w =>
      have hw := ih (Nat.lt_of_succ_lt_succ hdepth) hlists (Nat.lt_of_succ_lt hfits) rest
      rw [Value.serialize, List.cons_append]
      refine bind_eq_ok.mpr ⟨_, hw, ?_⟩
      simp [pure, Except.pure, Nat.add_comm]
    | pair a b =>
      have hd := Nat.max_lt.mp (Nat.lt_of_succ_lt_succ hdepth)
      rw [Value.serialize, List.length_cons, List.length_append] at hfits
      have ha := ih hd.1 hlists.1 (by omega) (b.serialize ++ rest)
      have hb := ih hd.2 hlists.2 (by omega) rest
      rw [Value.serialize, List.cons_append, List.append_assoc]
      refine bind_eq_ok.mpr ⟨_, ha, bind_eq_ok.mpr ⟨(b, b.serialize.length), ?_, ?_⟩⟩
      · rw [List.drop_left]
        exact hb
      · simp [pure, Except.pure]
        omega
    | list vs =>
      rw [Value.serialize, serializeList_eq, List.length_cons, List.length_append, length_leBytes] at hfits
      have hvs : ∀ w ∈ vs, ReadsAs (Value.deserializeDepth levels) w w.serialize := fun w hw =>
        ih ((depth_lt_depthList hw).trans_le (Nat.le_of_lt_succ hdepth)) (listsFit_of_mem hlists.2 hw)
          (by have := length_serialize_le hw; omega)
      have hcount : vs.length < 256 ^ 4 := hlists.1.trans_lt (by decide)
      rw [Value.serialize, serializeList_eq, List.cons_append, List.append_assoc, Value.deserializeDepth]
      simp only [Value.deserializeTagged, leNat_take_append hcount, drop_leBytes_append, deserializeElems_eq]
      rw [if_neg (by simp), if_neg (Nat.not_lt.mpr hlists.1)]
      refine bind_eq_ok.mpr ⟨_, readMany_reads hvs rest, ?_⟩
      simp [pure, Except.pure]
      omega
    | bytes bs =>
      have hcount : bs.length < 2 ^ 32 := by
        rw [Value.serialize, List.length_cons, List.length_append] at hfits
        omega
      exact bytes_reads levels hcount rest
    | u64 n =>
      rw [Value.serialize, List.cons_append, Value.deserializeDepth]
      have hn : n.toNat < 256 ^ 8 := n.toNat_lt
      simp only [Value.deserializeTagged, leNat_take_append hn, UInt64.ofNat_toNat]
      simp
    | u256 d =>
      rw [Value.serialize, List.cons_append, Value.deserializeDepth]
      simp only [Value.deserializeTagged, hashOfBytes_append]
      simp
    | bool b => cases b <;> rfl
    | hash h =>
      rw [Value.serialize, List.cons_append, Value.deserializeDepth]
      simp only [Value.deserializeTagged, hashOfBytes_append]
      simp

/-! ## Nodes -/

theorem fromU32_eq (h : JetId.fromU32 n = some jet) : jet.toU32 = n := by
  unfold JetId.fromU32 at h
  split at h <;> cases h <;> rfl

theorem fromU32_toU32 (jet : JetId) : JetId.fromU32 jet.toU32 = some jet := by
  cases jet <;> rfl

theorem toU32_lt (jet : JetId) : jet.toU32 < 256 ^ 4 := by
  cases jet <;> decide

theorem readOne_takes {mk : NodeId → Combinator}
    (hmk : ∀ f, serializeNode (mk f) = tag :: leBytes 4 f) (h : readOne mk rest = .ok (node, n)) :
    Takes (tag :: rest) n (serializeNode node) := by
  unfold readOne at h
  split at h
  · cases h
  rename_i hlen
  cases h
  rw [hmk]
  exact (Takes.number (Nat.not_lt.mp hlen)).cons tag

theorem readTwo_takes {mk : NodeId → NodeId → Combinator}
    (hmk : ∀ f g, serializeNode (mk f g) = tag :: (leBytes 4 f ++ leBytes 4 g))
    (h : readTwo mk rest = .ok (node, n)) : Takes (tag :: rest) n (serializeNode node) := by
  unfold readTwo at h
  split at h
  · cases h
  rename_i hlen
  cases h
  have hnext : 4 ≤ (rest.drop 4).length := by
    rw [List.length_drop]
    omega
  rw [hmk]
  exact ((Takes.number (by omega)).append (.number hnext)).cons tag

theorem readConst_takes (h : readConst rest = .ok (node, n)) : Takes (0x0E :: rest) n (serializeNode node) := by
  unfold readConst at h
  split at h
  · cases h
  rename_i hlen
  dsimp only at h
  split at h
  · cases h
  rename_i hdata
  split at h
  · cases h
  rename_i value consumed hvalue
  split at h
  · cases h
  rename_i hconsumed
  cases h
  have hconsumed := not_not.mp hconsumed
  have hraw : leNat (rest.take 4) ≤ (rest.drop 4).length := by
    rw [List.length_drop]
    omega
  have htakes := deserializeDepth_canonical _ hvalue
  rw [hconsumed] at htakes
  have hlength := htakes.length_eq
  have hbytes : Takes (rest.drop 4) (leNat (rest.take 4)) value.serialize := by
    refine ⟨hraw, ?_⟩
    rw [← htakes.2, List.take_take, min_self]
  rw [serializeNode, ← hlength, show 5 + leNat (rest.take 4) = 1 + (4 + leNat (rest.take 4)) by omega]
  exact ((Takes.number (Nat.not_lt.mp hlen)).append hbytes).cons 0x0E

/-- A node is accepted in one encoding only. -/
theorem deserializeNode_canonical : Canonical deserializeNode serializeNode := by
  intro data node n h
  cases data with
  | nil => cases h
  | cons tag rest =>
    simp only [deserializeNode] at h
    split at h
    · cases h
      exact Takes.nil.cons 0x00
    · exact readTwo_takes (fun _ _ => rfl) h
    · cases h
      exact Takes.nil.cons 0x02
    · exact readTwo_takes (fun _ _ => rfl) h
    iterate 4
      · exact readOne_takes (fun _ => rfl) h
    · exact readTwo_takes (fun _ _ => rfl) h
    · split at h
      · cases h
      rename_i hlen
      cases h
      have hz : 4 ≤ (rest.drop 4).length := by
        rw [List.length_drop]
        omega
      have hk : 8 ≤ (rest.drop 8).length := by
        rw [List.length_drop]
        omega
      have hn : (UInt64.ofNat (leNat ((rest.drop 8).take 8))).toNat = leNat ((rest.drop 8).take 8) :=
        UInt64.toNat_ofNat_of_lt' (leNat_take_lt hk)
      rw [serializeNode, hn]
      exact (((Takes.number (by omega)).append (.number hz)).append (.number hk)).cons 0x09
    · exact readTwo_takes (fun _ _ => rfl) h
    · split at h
      · cases h
      rename_i hlen
      split at h <;> cases h
      rename_i jet hjet
      rw [serializeNode, fromU32_eq hjet]
      exact (Takes.number (Nat.not_lt.mp hlen)).cons 0x0B
    · cases h
      exact Takes.nil.cons 0x0C
    · split at h
      · cases h
      rename_i hlen
      cases h
      exact (takes_hash (Nat.not_lt.mp hlen)).cons 0x0D
    · exact readConst_takes h
    · cases h

/-- What a node needs to be read back: indices that fit 32 bits, and a constant within the limits. -/
structure NodeFits (node : Combinator) : Prop where
  children : ∀ c ∈ node.children, c < 256 ^ 4
  const : ∀ v, node = .const v → depth v ≤ maxValueDepth ∧ ListsFit v ∧ v.serialize.length < 256 ^ 4

theorem readOne_append (mk : NodeId → Combinator) (hf : f < 256 ^ 4) (rest : List UInt8) :
    readOne mk (leBytes 4 f ++ rest) = .ok (mk f, 5) := by
  unfold readOne
  rw [if_neg (by simp), leNat_take_append hf]

theorem readTwo_append (mk : NodeId → NodeId → Combinator) (hf : f < 256 ^ 4) (hg : g < 256 ^ 4)
    (rest : List UInt8) : readTwo mk (leBytes 4 f ++ leBytes 4 g ++ rest) = .ok (mk f g, 9) := by
  have hlen : ¬ (leBytes 4 f ++ leBytes 4 g ++ rest).length < 8 := by
    simp
    omega
  unfold readTwo
  rw [if_neg hlen, List.append_assoc, leNat_take_append hf, drop_leBytes_append, leNat_take_append hg]

theorem readConst_append (hdepth : depth v ≤ maxValueDepth) (hlists : ListsFit v)
    (hfits : v.serialize.length < 256 ^ 4) (rest : List UInt8) :
    readConst (leBytes 4 v.serialize.length ++ v.serialize ++ rest) =
      .ok (.const v, 5 + v.serialize.length) := by
  have hvalue : Value.deserialize v.serialize = .ok (v, v.serialize.length) := by
    have := value_reads (Nat.lt_succ_of_le hdepth) hlists hfits []
    rwa [List.append_nil] at this
  unfold readConst
  rw [if_neg (by simp), List.append_assoc]
  simp only [leNat_take_append hfits, drop_leBytes_append, List.take_left, hvalue]
  rw [if_neg (by simp), if_neg (by simp)]

theorem node_reads (h : NodeFits node) : ReadsAs deserializeNode node (serializeNode node) := by
  intro rest
  cases node with
  | iden | unit | witness => rfl
  | take f | drop f | injL f | injR f =>
    exact readOne_append _ (h.children f (.head _)) rest
  | comp f g | pair f g | case f g | listFold f g =>
    exact readTwo_append _ (h.children f (.head _))
      (h.children g (.tail _ (.head _))) rest
  | fold f z k =>
    have hf := h.children f (.head _)
    have hz := h.children z (.tail _ (.head _))
    have hk : k.toNat < 256 ^ 8 := k.toNat_lt
    have hlen : ¬ (leBytes 4 f ++ (leBytes 4 z ++ (leBytes 8 k.toNat ++ rest))).length < 16 := by
      simp
      omega
    have hdrop : (leBytes 4 f ++ (leBytes 4 z ++ (leBytes 8 k.toNat ++ rest))).drop 8 =
        leBytes 8 k.toNat ++ rest := by
      rw [← List.append_assoc]
      exact List.drop_left' (by simp)
    simp only [serializeNode, List.cons_append, List.append_assoc, deserializeNode]
    rw [if_neg hlen, hdrop, leNat_take_append hf, drop_leBytes_append, leNat_take_append hz,
      leNat_take_append hk, UInt64.ofNat_toNat]
    simp
  | jet id =>
    simp only [serializeNode, List.cons_append, deserializeNode, leNat_take_append (toU32_lt id), fromU32_toU32]
    simp
  | merkleHidden hash =>
    simp only [serializeNode, List.cons_append, deserializeNode, hashOfBytes_append]
    simp
  | const v =>
    obtain ⟨hdepth, hlists, hfits⟩ := h.const v rfl
    simp only [serializeNode, List.cons_append, deserializeNode]
    rw [readConst_append hdepth hlists hfits]
    simp
    omega

/-! ## Programs -/

theorem deserializeNodes_eq (count : Nat) (data : List UInt8) :
    deserializeNodes count data = readMany deserializeNode count data := by
  induction count generalizing data with
  | zero => rfl
  | succ count ih => simp only [deserializeNodes, readMany, ih]

theorem checkProgram_eq_ok {consumed root : Nat} : checkProgram data nodes consumed root = .ok p ↔
      p = ⟨nodes, root⟩ ∧ 8 + consumed = data.length ∧ p.validateStructure = .ok () := by
  unfold checkProgram
  constructor
  · intro h
    split at h
    · cases h
    rename_i hlen
    split at h
    · cases h
    rename_i hvalid
    cases h
    exact ⟨rfl, not_not.mp hlen, hvalid⟩
  · rintro ⟨rfl, hlen, hvalid⟩
    rw [if_neg (not_not.mpr hlen), hvalid]

/-- What the decoder accepts: a count within the limits, its nodes and nothing after them. -/
theorem deserializeProgram_eq_ok : deserializeProgram data = .ok p ↔
      8 ≤ data.length ∧ leNat (data.take 4) ≤ maxScriptNodes ∧
      leNat (data.take 4) ≤ data.length - 8 ∧
      readMany deserializeNode (leNat (data.take 4)) (data.drop 8) = .ok (p.nodes, data.length - 8) ∧
      p.root = leNat ((data.drop 4).take 4) ∧ p.validateStructure = .ok () := by
  unfold deserializeProgram
  constructor
  · intro h
    split at h
    · cases h
    rename_i hlen
    dsimp only at h
    split at h
    · cases h
    rename_i hcount
    split at h
    · cases h
    rename_i hroom
    obtain ⟨⟨nodes, consumed⟩, hnodes, h⟩ := bind_eq_ok.mp h
    obtain ⟨rfl, hconsumed, hvalid⟩ := checkProgram_eq_ok.mp h
    rw [deserializeNodes_eq] at hnodes
    have hconsumed : consumed = data.length - 8 := by omega
    rw [hconsumed] at hnodes
    exact ⟨Nat.not_lt.mp hlen, Nat.not_lt.mp hcount, Nat.not_lt.mp hroom, hnodes, rfl, hvalid⟩
  · rintro ⟨hlen, hcount, hroom, hnodes, hroot, hvalid⟩
    rw [if_neg (Nat.not_lt.mpr hlen), if_neg (Nat.not_lt.mpr hcount), if_neg (Nat.not_lt.mpr hroom)]
    refine bind_eq_ok.mpr ⟨(p.nodes, data.length - 8), ?_, ?_⟩
    · rw [deserializeNodes_eq]
      exact hnodes
    · refine checkProgram_eq_ok.mpr ⟨?_, by omega, hvalid⟩
      rw [← hroot]

/-- A program is accepted in one encoding only. -/
theorem serialize_deserializeProgram (h : deserializeProgram data = .ok p) : serializeProgram p = data := by
  obtain ⟨hlen, -, -, hnodes, hroot, -⟩ := deserializeProgram_eq_ok.mp h
  have hroot4 : 4 ≤ (data.drop 4).length := by
    rw [List.length_drop]
    omega
  have hhead := (Takes.number (by omega : 4 ≤ data.length)).append (.number hroot4)
  have hall := hhead.append (deserializeNode_canonical.many _ hnodes)
  rw [← length_readMany hnodes, ← hroot, show 4 + 4 + (data.length - 8) = data.length by omega] at hall
  exact hall.eq.symm

theorem readConst_length (h : readConst rest = .ok (node, n)) : n < 5 + 256 ^ 4 := by
  unfold readConst at h
  split at h
  · cases h
  rename_i hlen
  have hlt := leNat_take_lt (Nat.not_lt.mp hlen)
  dsimp only at h
  split at h
  · cases h
  split at h
  · cases h
  split at h
  · cases h
  cases h
  exact Nat.add_lt_add_left hlt 5

/-- A constant that was read fits its length prefix. -/
theorem length_const_lt (h : deserializeNode data = .ok (.const v, n)) : v.serialize.length < 256 ^ 4 := by
  have htakes := deserializeNode_canonical h
  have hlen := htakes.length_eq
  cases data with
  | nil => cases h
  | cons tag rest =>
    cases n with
    | zero => simp [serializeNode] at hlen
    | succ n =>
      -- the encoding of a constant names its own tag
      have htag : tag = 0x0E := (List.cons.inj htakes.2).1
      subst htag
      have hread : readConst rest = .ok (.const v, n + 1) := h
      have hlt := readConst_length hread
      simp only [serializeNode, List.length_cons, List.length_append, length_leBytes] at hlen
      omega

/-- Every constant of the program fits the 32-bit length prefix of its encoding. -/
def ConstantsFit (p : Program) : Prop :=
  ∀ v, Combinator.const v ∈ p.nodes → v.serialize.length < 2 ^ 32

theorem children_lt (h : validateChildren n i nodes = .ok ()) : ∀ node ∈ nodes, ∀ c ∈ node.children, c < n := by
  induction nodes generalizing i with
  | nil => exact fun _ h => nomatch h
  | cons node nodes ih =>
    obtain ⟨⟨⟩, hnode, hnodes⟩ := bind_eq_ok.mp h
    intro node' hmem c hc
    rcases List.mem_cons.mp hmem with rfl | hmem
    · have hchild := forM_eq_ok.mp hnode c hc
      unfold validateChild at hchild
      split at hchild
      · cases hchild
      · rename_i hlt
        exact Nat.not_le.mp hlt
    · exact ih hnodes node' hmem c hc

theorem validateStructure_root (h : p.validateStructure = .ok ()) :
    p.root < p.nodes.length ∧ validateChildren p.nodes.length 0 p.nodes = .ok () := by
  unfold validateStructure at h
  split at h
  · cases h
  split at h
  · cases h
  rename_i hroot
  obtain ⟨⟨⟩, hchildren, -⟩ := bind_eq_ok.mp h
  exact ⟨Nat.not_le.mp hroot, hchildren⟩

theorem nodeFits (h : WithinLimits p) (hfits : ConstantsFit p) (hnode : node ∈ p.nodes) : NodeFits node where
  children c hc := by
    have hlt := children_lt (validateStructure_root h.valid).2 node hnode c hc
    exact hlt.trans_le (h.count.trans (by decide))
  const := by
    rintro v rfl
    exact ⟨h.depth v hnode, h.lists v hnode, hfits v hnode⟩

theorem one_le_length_serializeNode (node : Combinator) : 1 ≤ (serializeNode node).length := by
  cases node <;> simp [serializeNode]

theorem length_le_flatMap (nodes : List Combinator) : nodes.length ≤ (nodes.flatMap serializeNode).length := by
  induction nodes with
  | nil => exact Nat.le_refl 0
  | cons node nodes ih =>
    have := one_le_length_serializeNode node
    rw [List.flatMap_cons, List.length_cons, List.length_append]
    omega

/-- A program within the limits is read back from its encoding. -/
theorem deserialize_serializeProgram (h : WithinLimits p) (hfits : ConstantsFit p) :
    deserializeProgram (serializeProgram p) = .ok p := by
  have hcount : p.nodes.length < 256 ^ 4 := h.count.trans_lt (by decide)
  have hroot : p.root < 256 ^ 4 := (validateStructure_root h.valid).1.trans hcount
  have hnodes := readMany_reads (fun _ hnode => node_reads (nodeFits h hfits hnode)) []
  have hroom := length_le_flatMap p.nodes
  have hlen : (serializeProgram p).length - 8 = (p.nodes.flatMap serializeNode).length := by
    simp only [serializeProgram, List.length_append, length_leBytes]
    omega
  have hfirst : leNat ((serializeProgram p).take 4) = p.nodes.length := by
    rw [serializeProgram, List.append_assoc, leNat_take_append hcount]
  have hsecond : leNat (((serializeProgram p).drop 4).take 4) = p.root := by
    rw [serializeProgram, List.append_assoc, drop_leBytes_append, leNat_take_append hroot]
  have hrest : (serializeProgram p).drop 8 = p.nodes.flatMap serializeNode :=
    List.drop_left' (by simp)
  rw [List.append_nil] at hnodes
  refine deserializeProgram_eq_ok.mpr ⟨?_, ?_, ?_, ?_, hsecond.symm, h.valid⟩
  · simp [serializeProgram]
    omega
  · rw [hfirst]
    exact h.count
  · rw [hfirst, hlen]
    exact hroom
  · rw [hfirst, hlen, hrest]
    exact hnodes

/-- A program that is read back has constants that fit their length prefixes. -/
theorem constantsFit_of_deserialize (h : deserializeProgram data = .ok p) : ConstantsFit p := by
  obtain ⟨-, -, -, hnodes, -, -⟩ := deserializeProgram_eq_ok.mp h
  intro v hv
  obtain ⟨_, _, hread⟩ := exists_of_mem_readMany hnodes _ hv
  exact length_const_lt hread

/-- The encoding of scripts is canonical both ways: only the encoding of a program decodes to it, and
within the limits it does decode to it just when no constant outgrows its length prefix. -/
theorem script_encoding : (∀ (data : List UInt8) (p : Program), deserializeProgram data = .ok p →
      serializeProgram p = data) ∧ (∀ p : Program, WithinLimits p →
      (deserializeProgram (serializeProgram p) = .ok p ↔ ConstantsFit p)) :=
  ⟨fun _ _ => serialize_deserializeProgram,
    fun _ h => ⟨constantsFit_of_deserialize, deserialize_serializeProgram h⟩⟩

/-! ## A constant that outgrows its prefix -/

/-- A list of `n` lists of `n` units. -/
def gridValue (n : Nat) : Value :=
  .list (List.replicate n (.list (List.replicate n .unit)))

/-- The program with one constant. -/
def constProgram (v : Value) : Program where
  nodes := [.const v]
  root := 0

theorem length_gridValue (n : Nat) : (gridValue n).serialize.length = 5 + n * (5 + n) := by
  have hrow : (Value.list (List.replicate n .unit)).serialize.length = 5 + n := by
    simp [Value.serialize, serializeList_eq]
    omega
  have hgrid : (gridValue n).serialize.length =
      4 + n * (Value.list (List.replicate n .unit)).serialize.length + 1 := by
    rw [gridValue, Value.serialize, serializeList_eq]
    simp
  rw [hgrid, hrow]
  omega

theorem allListsFit_replicate (h : ListsFit v) (n : Nat) : AllListsFit (List.replicate n v) := by
  induction n with
  | zero => trivial
  | succ n ih => exact ⟨h, ih⟩

theorem depth_gridValue (n : Nat) : depth (gridValue n) ≤ 2 := by
  refine depthList_le fun v hv => ?_
  rw [List.eq_of_mem_replicate hv]
  refine Nat.lt_succ_of_le (depthList_le fun w hw => ?_)
  rw [List.eq_of_mem_replicate hw]
  exact Nat.one_pos

theorem gridProgram_withinLimits (h : n ≤ maxListLength) : WithinLimits (constProgram (gridValue n)) where
  valid := rfl
  count := Nat.le_of_ble_eq_true rfl
  depth v hv := by
    cases List.mem_singleton.mp hv
    exact (depth_gridValue n).trans (by decide)
  lists v hv := by
    cases List.mem_singleton.mp hv
    have hunit : ListsFit .unit := trivial
    have hrow : ListsFit (.list (List.replicate n .unit)) :=
      ⟨by rwa [List.length_replicate], allListsFit_replicate hunit n⟩
    exact ⟨by rwa [List.length_replicate], allListsFit_replicate hrow n⟩

/-- A list of 65536 lists of 65536 units is within every limit, but its encoding is longer than the
length prefix can say. -/
theorem script_encoding_counterexample : WithinLimits (constProgram (gridValue 65536)) ∧
      deserializeProgram (serializeProgram (constProgram (gridValue 65536))) ≠
        .ok (constProgram (gridValue 65536)) := by
  refine ⟨gridProgram_withinLimits (Nat.le_refl _), fun h => ?_⟩
  have hfits := constantsFit_of_deserialize h _ (List.mem_singleton.mpr rfl)
  rw [length_gridValue] at hfits
  exact absurd hfits (by decide)

theorem script_encoding_grid : WithinLimits (constProgram (gridValue 2)) ∧
      deserializeProgram (serializeProgram (constProgram (gridValue 2))) =
        .ok (constProgram (gridValue 2)) ∧
      deserializeProgram (serializeProgram (constProgram (gridValue 2)) ++ [0]) ≠
        .ok (constProgram (gridValue 2)) := by
  have hlimits := gridProgram_withinLimits (by decide : 2 ≤ maxListLength)
  refine ⟨hlimits, (script_encoding.2 _ hlimits).mpr ?_, fun h => ?_⟩
  · intro v hv
    cases List.mem_singleton.mp hv
    decide
  · have hdata := script_encoding.1 _ _ h
    exact absurd (congrArg List.length hdata) (by simp)

end Exfer.Proof.Script
