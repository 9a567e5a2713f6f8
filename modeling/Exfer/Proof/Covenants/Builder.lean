import Exfer.Proof.Script.Unfold
import Exfer.Spec.Builder

/-!
# The script builder

The arena of a builder stands for a list of trees, one for each node (`Arena`): a node is pushed after
its children. Reversed and renumbered it unfolds to these trees (`Arena.unfoldings_reverse`), so that `build`
returns a valid program that unfolds to the tree the calls describe (`build_preserves`).

An id is the length of the arena modulo `2 ^ 32`. Where the arena has more nodes than ids, some are not
below any id (`Pushes`); otherwise the ids are those of the trees (`Builds`).
-/

namespace Exfer.Proof.Covenants

open Lib Impl Impl.Script Impl.Covenants Spec Spec.Script
open Proof.Script

variable {i c n a root : Nat} {node : Combinator} {k : NodeId → BuilderM NodeId} {t : ScriptTree}
  {trees described : List ScriptTree} {b b' : ScriptBuilder} {ids : List NodeId}
  {calls : List BuilderCall}

/-! ## Grafts -/

theorem children_remap (remap : NodeId → NodeId) (node : Combinator) :
    (remapCombinator remap node).children = node.children.map remap := by
  cases node <;> rfl

theorem graft_remap (sub : NodeId → Option ScriptTree) (remap : NodeId → NodeId) (node : Combinator) :
    graft sub (remapCombinator remap node) = graft (fun c => sub (remap c)) node := by
  cases node <;> rfl

/-! ## The arena -/

/-- The nodes stand for the trees, each over the nodes before it. -/
inductive Arena : List Combinator → List ScriptTree → Prop
  | nil : Arena [] []
  | push {nodes : List Combinator} {trees : List ScriptTree} {node : Combinator} {t : ScriptTree} :
    Arena nodes trees → graft (fun c => trees[c]?) node = some t → Arena (nodes ++ [node]) (trees ++ [t])

namespace Arena

variable {nodes : List Combinator} {trees : List ScriptTree}

theorem length_eq (h : Arena nodes trees) : trees.length = nodes.length := by
  induction h with
  | nil => rfl
  | push _ _ ih => simp [ih]

theorem child_lt (h : Arena nodes trees) (hc : ChildOf nodes i c) : c < i := by
  obtain ⟨node, hnode, hc⟩ := hc
  induction h with
  | nil => cases hnode
  | @push nodes trees node' t harena hgraft ih =>
    rw [List.getElem?_append] at hnode
    split at hnode
    · exact ih hnode
    have hi : i = nodes.length := by
      have hlt := (List.getElem?_eq_some_iff.mp hnode).1
      simp only [List.length_singleton] at hlt
      omega
    subst hi
    obtain rfl : node' = node := by simpa using hnode
    obtain ⟨t', ht'⟩ := exists_child_of_graft hgraft c hc
    have hlt : c < trees.length := (List.getElem?_eq_some_iff.mp ht').1
    rwa [harena.length_eq] at hlt

/-- The nodes in reverse, with their children renumbered from `i` on, unfold to the trees in reverse. -/
theorem unfoldings_reverse (h : Arena nodes trees) (i : Nat) :
    bottomUp unfoldStep i (nodes.reverse.map (remapCombinator fun old => i + nodes.length - 1 - old)) =
      .ok trees.reverse := by
  induction h generalizing i with
  | nil => rfl
  | @push nodes trees node t harena hgraft ih =>
    have hremap : (fun old => i + (nodes ++ [node]).length - 1 - old) =
        fun old => i + 1 + nodes.length - 1 - old := by
      funext old
      rw [List.length_append, List.length_singleton]
      omega
    rw [hremap, List.reverse_append, List.reverse_append]
    refine bind_eq_ok.mpr ⟨trees.reverse, ih (i + 1), bind_eq_ok.mpr ⟨t, ?_, rfl⟩⟩
    have hsub : ∀ c : Nat, c ∈ node.children →
        Program.laterResult i trees.reverse (i + 1 + nodes.length - 1 - c) = trees[c]? := by
      intro c hc
      obtain ⟨t', ht'⟩ := exists_child_of_graft hgraft c hc
      have hlt : c < trees.length := (List.getElem?_eq_some_iff.mp ht').1
      have hlen := harena.length_eq
      have hlater : ¬ i + 1 + nodes.length - 1 - c ≤ i := by omega
      have hbound : i + 1 + nodes.length - 1 - c - i - 1 < trees.length := by omega
      rw [Program.laterResult, if_neg hlater, List.getElem?_reverse hbound]
      congr 1
      omega
    rw [unfoldStep, graft_remap, graft_congr hsub, hgraft]

end Arena

/-! ## Ids -/

/-- Every child of a node has an id. -/
def Small (b : ScriptBuilder) : Prop :=
  ∀ node ∈ b.nodes, ∀ c : Nat, c ∈ node.children → c < 2 ^ 32

/-- The calls push `n` nodes, and return an id. -/
def Pushes (m : BuilderM NodeId) (n : Nat) : Prop :=
  ∀ b id b', m b = (id, b') →
    b'.nodes.length = b.nodes.length + n ∧ id < 2 ^ 32 ∧ (Small b → Small b')

namespace Pushes

theorem push (h : ∀ c : Nat, c ∈ node.children → c < 2 ^ 32) : Pushes (ScriptBuilder.push node) 1 := by
  intro b id b' hrun
  cases hrun
  refine ⟨by simp, Nat.mod_lt _ (by decide), fun hb node' hnode' => ?_⟩
  rcases List.mem_append.mp hnode' with hnode' | hnode'
  · exact hb node' hnode'
  · rwa [List.mem_singleton.mp hnode']

theorem next (h : ∀ c : Nat, c ∈ node.children → c < 2 ^ 32)
    (hk : ∀ id : Nat, id < 2 ^ 32 → Pushes (k id) n) : Pushes (ScriptBuilder.push node >>= k) (n + 1) := by
  intro b id b' hrun
  obtain ⟨hlen, hid, hsmall⟩ := push h b _ _ rfl
  obtain ⟨hlen', hid', hsmall'⟩ := hk _ hid _ id b' hrun
  exact ⟨by omega, hid', fun hb => hsmall' (hsmall hb)⟩

end Pushes

/-! ## Trees -/

/-- Over an arena that stands for `trees`, with room for `n` more nodes, the calls push `n` nodes and return
the id of one that stands for `t`. -/
def Builds (trees : List ScriptTree) (m : BuilderM NodeId) (n : Nat) (t : ScriptTree) : Prop :=
  ∀ b id b', m b = (id, b') → Arena b.nodes trees → trees.length + n ≤ 2 ^ 32 →
    ∃ more, more.length = n ∧ Arena b'.nodes (trees ++ more) ∧ (trees ++ more)[id]? = some t

namespace Builds

theorem push (h : graft (fun c => trees[c]?) node = some t) : Builds trees (ScriptBuilder.push node) 1 t := by
  intro b id b' hrun harena hroom
  cases hrun
  refine ⟨[t], rfl, harena.push h, ?_⟩
  rw [← harena.length_eq, Nat.mod_eq_of_lt (by omega)]
  simp

theorem next (h : graft (fun c => trees[c]?) node = some t)
    (hk : ∀ (id : Nat) (more : List ScriptTree), (trees ++ more)[id]? = some t → Builds (trees ++
      more) (k id) n t') : Builds trees (ScriptBuilder.push node >>= k) (n + 1) t' := by
  intro b id b' hrun harena hroom
  obtain ⟨more, hmore, harena', hid⟩ := push h b _ _ rfl harena (by omega)
  obtain ⟨more', hmore', harena'', hid'⟩ := hk _ more hid _ id b' hrun harena'
    (by rw [List.length_append]; omega)
  rw [List.append_assoc] at harena'' hid'
  exact ⟨more ++ more', by rw [List.length_append, hmore, hmore', Nat.add_comm], harena'', hid'⟩

end Builds

/-! ## Calls -/

theorem two_small (hf : f < 2 ^ 32) (hg : g < 2 ^ 32) : ∀ c : Nat, c ∈ [f, g] → c < 2 ^ 32 :=
  List.forall_mem_cons.mpr ⟨hf, List.forall_mem_singleton.mpr hg⟩

theorem known (h : trees[a]? = some t) : (trees ++ more)[a]? = some t := by
  rw [List.getElem?_append_left (List.getElem?_eq_some_iff.mp h).1, h]

section grafts

variable {sub : NodeId → Option ScriptTree} {f g : NodeId} {a b : ScriptTree}
  (hf : sub f = some a) (hg : sub g = some b)

include hf hg

theorem graft_comp : graft sub (.comp f g) = some (.comp a b) := by simp [graft, hf, hg]

theorem graft_pair : graft sub (.pair f g) = some (.pair a b) := by simp [graft, hf, hg]

theorem graft_case : graft sub (.case f g) = some (.case a b) := by simp [graft, hf, hg]

end grafts

section helpers

theorem sigCheck_pushes (pubkey : Vector UInt8 32) : Pushes (ScriptBuilder.sigCheck pubkey) 9 := by
  refine .next nofun fun jet hjet => .next nofun fun u hu => ?_
  refine .next (two_small hu hjet) fun msg hmsg => ?_
  refine .next nofun fun pk hpk => .next nofun fun sig hsig => ?_
  refine .next (two_small hpk hsig) fun pkSig hpkSig => ?_
  refine .next (two_small hmsg hpkSig) fun input hinput => ?_
  refine .next nofun fun verify hverify => ?_
  exact .push (two_small hinput hverify)

theorem hashEq_pushes (expected : Hash256) : Pushes (ScriptBuilder.hashEq expected) 7 := by
  refine .next nofun fun preimage hpreimage => .next nofun fun sha hsha => ?_
  refine .next (two_small hpreimage hsha) fun hashed hhashed => ?_
  refine .next nofun fun hash hhash => ?_
  refine .next (two_small hhashed hhash) fun input hinput => ?_
  refine .next nofun fun eq heq => ?_
  exact .push (two_small hinput heq)

theorem heightJet_pushes (compare : JetId) (height : UInt64) :
    Pushes (ScriptBuilder.heightJet compare height) 7 := by
  refine .next nofun fun jet hjet => .next nofun fun u hu => ?_
  refine .next (two_small hu hjet) fun current hcurrent => ?_
  refine .next nofun fun bound hbound => ?_
  refine .next (two_small hcurrent hbound) fun input hinput => ?_
  refine .next nofun fun cmp hcmp => ?_
  exact .push (two_small hinput hcmp)

theorem and_pushes {b : Nat} (ha : a < 2 ^ 32) (hb : b < 2 ^ 32) : Pushes (ScriptBuilder.and a b) 3 := by
  refine .next nofun fun no hno => ?_
  refine .next (two_small hno hb) fun branch hbranch => ?_
  exact .push (two_small ha hbranch)

theorem or_pushes {b : Nat} (ha : a < 2 ^ 32) (hb : b < 2 ^ 32) : Pushes (ScriptBuilder.or a b) 3 := by
  refine .next nofun fun yes hyes => ?_
  refine .next (two_small hb hyes) fun branch hbranch => ?_
  exact .push (two_small ha hbranch)

variable {trees : List ScriptTree}

theorem sigCheck_builds (pubkey : Vector UInt8 32) :
    Builds trees (ScriptBuilder.sigCheck pubkey) 9 (sigCheckTree pubkey) := by
  refine .next rfl fun jet _ hjet => .next rfl fun u _ hu => ?_
  refine .next (graft_comp hu (known hjet)) fun msg _ hmsg => ?_
  refine .next rfl fun pk _ hpk => .next rfl fun sig _ hsig => ?_
  refine .next (graft_pair (known hpk) hsig) fun pkSig _ hpkSig => ?_
  refine .next (graft_pair (known (known (known hmsg))) hpkSig) fun input _ hinput => ?_
  refine .next rfl fun verify _ hverify => ?_
  exact .push (graft_comp (known hinput) hverify)

theorem hashEq_builds (expected : Hash256) :
    Builds trees (ScriptBuilder.hashEq expected) 7 (hashEqTree expected) := by
  refine .next rfl fun preimage _ hpreimage => .next rfl fun sha _ hsha => ?_
  refine .next (graft_comp (known hpreimage) hsha) fun hashed _ hhashed => ?_
  refine .next rfl fun hash _ hhash => ?_
  refine .next (graft_pair (known hhashed) hhash) fun input _ hinput => ?_
  refine .next rfl fun eq _ heq => ?_
  exact .push (graft_comp (known hinput) heq)

theorem heightJet_builds (compare : JetId) (height : UInt64) :
    Builds trees (ScriptBuilder.heightJet compare height) 7 (heightTree compare height) := by
  refine .next rfl fun jet _ hjet => .next rfl fun u _ hu => ?_
  refine .next (graft_comp hu (known hjet)) fun current _ hcurrent => ?_
  refine .next rfl fun bound _ hbound => ?_
  refine .next (graft_pair (known hcurrent) hbound) fun input _ hinput => ?_
  refine .next rfl fun cmp _ hcmp => ?_
  exact .push (graft_comp (known hinput) hcmp)

variable {a b : Nat} {ta tb : ScriptTree} (ha : trees[a]? = some ta) (hb : trees[b]? = some tb)

include ha hb

theorem and_builds : Builds trees (ScriptBuilder.and a b) 3 (andTree ta tb) := by
  refine .next rfl fun no _ hno => ?_
  refine .next (graft_case hno (known hb)) fun branch _ hbranch => ?_
  exact .push (graft_comp (known (known ha)) hbranch)

theorem or_builds : Builds trees (ScriptBuilder.or a b) 3 (orTree ta tb) := by
  refine .next rfl fun yes _ hyes => ?_
  refine .next (graft_case (known hb) hyes) fun branch _ hbranch => ?_
  exact .push (graft_comp (known (known ha)) hbranch)

end helpers

/-- The number of nodes that a call pushes. -/
def callSize : BuilderCall → Nat
  | .sigCheck _ => 9
  | .hashEq _ | .heightGt _ | .heightLt _ => 7
  | .and _ _ | .or _ _ => 3
  | _ => 1

theorem call_pushes (hids : ∀ id : Nat, id ∈ ids → id < 2 ^ 32) (call : BuilderCall) :
    Pushes (call.run ids) (callSize call) := by
  have hid (k : Nat) : ids.getD k 0 < 2 ^ 32 := by
    rw [List.getD_eq_getElem?_getD]
    cases hk : ids[k]? with
    | none => decide
    | some id => exact hids id (List.mem_of_getElem? hk)
  have hone (k : Nat) : ∀ c : Nat, c ∈ [ids.getD k 0] → c < 2 ^ 32 :=
    List.forall_mem_singleton.mpr (hid k)
  cases call with
  | iden | unit | witness | constant | jet | constFalse | constTrue => exact .push nofun
  | take f | dropNode f | injl f | injr f => exact .push (hone f)
  | comp f g | pair f g | case f g | fold f g | listFold f g => exact .push (two_small (hid f) (hid g))
  | sigCheck pubkey => exact sigCheck_pushes pubkey
  | hashEq expected => exact hashEq_pushes expected
  | heightGt height | heightLt height => exact heightJet_pushes _ height
  | and a b => exact and_pushes (hid a) (hid b)
  | or a b => exact or_pushes (hid a) (hid b)

/-- The ids are those of nodes that stand for the described trees. -/
def Stand (trees : List ScriptTree) (ids : List NodeId) (described : List ScriptTree) : Prop :=
  List.Forall₂ (fun (id : Nat) t => trees[id]? = some t) ids described

theorem Stand.exists_tree (h : Stand trees ids described) {k id : Nat} (hk : ids[k]? = some id) :
    ∃ t, described[k]? = some t ∧ trees[id]? = some t := by
  obtain ⟨t, ht, hid⟩ := forall₂_getElem? h.flip hk
  exact ⟨t, ht, hid⟩

theorem call_builds (hids : Stand trees ids described) (hcall : ∀ k ∈ call.uses, k < ids.length) :
    Builds trees (call.run ids) (callSize call) (call.tree described) := by
  have hid (k : Nat) (hk : k < ids.length) : trees[ids.getD k 0]? = some (described.getD k .unit) := by
    have hk' : k < described.length := hids.length_eq ▸ hk
    rw [List.getD_eq_getElem _ _ hk, List.getD_eq_getElem _ _ hk']
    exact hids.get hk hk'
  cases call with
  | iden | unit | witness | constant | jet | constFalse | constTrue => exact .push rfl
  | take f | dropNode f | injl f | injr f =>
    have hf := hid f (hcall f (by simp [BuilderCall.uses]))
    refine .push ?_
    simp only [graft, hf, Option.bind_eq_bind, Option.bind_some, Option.pure_def, BuilderCall.tree]
  | comp f g | pair f g | case f g | fold f g | listFold f g =>
    have hf := hid f (hcall f (by simp [BuilderCall.uses]))
    have hg := hid g (hcall g (by simp [BuilderCall.uses]))
    refine .push ?_
    simp only [graft, hf, hg, Option.bind_eq_bind, Option.bind_some, Option.pure_def, BuilderCall.tree]
  | sigCheck pubkey => exact sigCheck_builds pubkey
  | hashEq expected => exact hashEq_builds expected
  | heightGt height | heightLt height => exact heightJet_builds _ height
  | and a b =>
    exact and_builds (hid a (hcall a (by simp [BuilderCall.uses])))
      (hid b (hcall b (by simp [BuilderCall.uses])))
  | or a b =>
    exact or_builds (hid a (hcall a (by simp [BuilderCall.uses])))
      (hid b (hcall b (by simp [BuilderCall.uses])))

/-! ## Sequences of calls -/

/-- The number of nodes that the calls push. -/
def callsSize (calls : List BuilderCall) : Nat :=
  (calls.map callSize).sum

theorem runBuilder_pushes (hids : ∀ id : Nat, id ∈ ids → id < 2 ^ 32) (hrun : runBuilder ids calls b = (ids', b')) :
    b'.nodes.length = b.nodes.length + callsSize calls ∧ (∀ id : Nat, id ∈ ids' → id < 2 ^ 32) ∧
      (Small b → Small b') := by
  induction calls generalizing ids b with
  | nil =>
    cases hrun
    exact ⟨rfl, hids, id⟩
  | cons call calls ih =>
    obtain ⟨hlen, hid, hsmall⟩ := call_pushes hids call b _ _ rfl
    have hids' : ∀ id : Nat, id ∈ ids ++ [(call.run ids b).1] → id < 2 ^ 32 :=
      List.forall_mem_append.mpr ⟨hids, List.forall_mem_singleton.mpr hid⟩
    obtain ⟨hlen', hids', hsmall'⟩ := ih hids' hrun
    refine ⟨?_, hids', fun hb => hsmall' (hsmall hb)⟩
    rw [hlen', hlen, callsSize, callsSize, List.map_cons, List.sum_cons, Nat.add_assoc]

theorem runBuilder_builds (harena : Arena b.nodes trees) (hids : Stand trees ids described)
    (hcalls : UsesEarlier ids.length calls) (hroom : trees.length + callsSize calls ≤ 2 ^ 32)
    (hrun : runBuilder ids calls b = (ids', b')) :
    ∃ trees', Arena b'.nodes trees' ∧ Stand trees' ids' (describe described calls) := by
  induction calls generalizing ids b trees described with
  | nil =>
    cases hrun
    exact ⟨trees, harena, hids⟩
  | cons call calls ih =>
    rw [callsSize, List.map_cons, List.sum_cons, ← callsSize] at hroom
    obtain ⟨more, hmore, harena', hid⟩ := call_builds hids hcalls.1 b _ _ rfl harena (by omega)
    have hids' : Stand (trees ++ more) (ids ++ [(call.run ids b).1])
        (described ++ [call.tree described]) :=
      List.rel_append (hids.imp fun _ _ h => known h) (.cons hid .nil)
    refine ih harena' hids' ?_ ?_ hrun
    · rw [List.length_append]
      exact hcalls.2
    · rw [List.length_append]
      omega

/-! ## Building -/

section build

variable {b : ScriptBuilder} (hfits : b.nodes.length ≤ 2 ^ 32)

include hfits

/-- The renumbering of `build`, where the ids suffice. -/
theorem build_nodes : b.build.nodes =
    b.nodes.reverse.map (remapCombinator fun old => 0 + b.nodes.length - 1 - old) := by
  have hremap : (fun old => (b.nodes.length - 1 - old) % 2 ^ 32) =
      fun old => 0 + b.nodes.length - 1 - old := by
    funext old
    omega
  unfold ScriptBuilder.build
  rw [hremap]

theorem getElem?_build (hi : i < b.nodes.length) : b.build.nodes[b.nodes.length - 1 - i]? =
      b.nodes[i]?.map (remapCombinator fun old => 0 + b.nodes.length - 1 - old) := by
  rw [build_nodes hfits, List.getElem?_map, List.getElem?_reverse (by omega)]
  congr 2
  omega

theorem childOf_build (h : ChildOf b.nodes i c) :
    ChildOf b.build.nodes (b.nodes.length - 1 - i) (b.nodes.length - 1 - c) := by
  obtain ⟨node, hnode, hc⟩ := h
  have hi : i < b.nodes.length := (List.getElem?_eq_some_iff.mp hnode).1
  refine ⟨_, by rw [getElem?_build hfits hi, hnode, Option.map_some], ?_⟩
  rw [children_remap]
  exact List.mem_map.mpr ⟨c, hc, by rw [Nat.zero_add]⟩

theorem wellFormed_build (harena : Arena b.nodes trees) (hpos : 0 < b.nodes.length) : WellFormed b.build := by
  have hlen : b.build.nodes.length = b.nodes.length := by simp [ScriptBuilder.build]
  refine ⟨by rwa [hlen], fun i node hi c hc => ?_⟩
  have hlt : i < b.nodes.length := hlen ▸ (List.getElem?_eq_some_iff.mp hi).1
  have hrev := getElem?_build hfits (i := b.nodes.length - 1 - i) (by omega)
  rw [show b.nodes.length - 1 - (b.nodes.length - 1 - i) = i by omega, show b.build.nodes[i]? = _ from hi]
    at hrev
  obtain ⟨old, hold, rfl⟩ := Option.map_eq_some_iff.mp hrev.symm
  rw [children_remap] at hc
  obtain ⟨c', hc', rfl⟩ := List.mem_map.mp hc
  have hchild := harena.child_lt ⟨old, hold, hc'⟩
  omega

end build

theorem reaches_le {nodes : List Combinator} (h : Arena nodes trees) {k : Nat}
    (hk : Reaches nodes root k) : k ≤ root := by
  induction hk with
  | refl => exact le_rfl
  | tail _ hc ih => exact (h.child_lt hc).le.trans ih

/-- The ids suffice where every node is below one. -/
theorem fits_of_reaches (hb : Small b) (hroot : root < 2 ^ 32)
    (hreach : ∀ k < b.nodes.length, Reaches b.nodes root k) : b.nodes.length ≤ 2 ^ 32 := by
  by_contra hlen
  rcases (hreach (2 ^ 32) (by omega)).cases_tail with hrefl | ⟨i, _, node, hnode, hc⟩
  · exact absurd hroot (hrefl ▸ Nat.lt_irrefl _)
  · exact Nat.lt_irrefl _ (hb node (List.mem_of_getElem? hnode) _ hc)

/-- For every sequence of builder calls, and the node of one of them that all nodes are below, `build`
returns a program of valid structure that unfolds to the tree that the call describes. -/
theorem build_preserves {calls : List BuilderCall} {ids : List NodeId} {b : ScriptBuilder} {r root : Nat}
    (hcalls : UsesEarlier 0 calls) (hrun : runBuilder [] calls .new = (ids, b))
    (hroot : ids[r]? = some root) (hreach : ∀ k < b.nodes.length, Reaches b.nodes root k) :
    b.build.validateStructure = .ok () ∧
      ∃ t, (describe [] calls)[r]? = some t ∧ unfolding b.build = some t := by
  obtain ⟨hsize, hids, hsmall⟩ := runBuilder_pushes (by simp) hrun
  have hfits : b.nodes.length ≤ 2 ^ 32 :=
    fits_of_reaches (hsmall (by simp [Small, ScriptBuilder.new])) (hids root (List.mem_of_getElem? hroot)) hreach
  obtain ⟨trees, harena, hstand⟩ := runBuilder_builds (b := .new) .nil .nil hcalls
    (by rwa [hsize] at hfits) hrun
  have hlen := harena.length_eq
  -- the root is the last node
  obtain ⟨t, hdescribed, ht⟩ := hstand.exists_tree hroot
  have hlt : root < trees.length := (List.getElem?_eq_some_iff.mp ht).1
  have hlast : b.nodes.length - 1 - root = 0 := by
    have hle := reaches_le harena (hreach (b.nodes.length - 1) (by omega))
    omega
  have hwf := wellFormed_build hfits harena (by omega)
  refine ⟨validateStructure_ok hwf fun k hk => ?_, t, hdescribed, ?_⟩
  · have hlenb : b.build.nodes.length = b.nodes.length := by simp [ScriptBuilder.build]
    have hlift : Reaches b.build.nodes (b.nodes.length - 1 - root)
        (b.nodes.length - 1 - (b.nodes.length - 1 - k)) :=
      Relation.ReflTransGen.lift (fun i => b.nodes.length - 1 - i) (fun _ _ => childOf_build hfits) _ _
        (hreach (b.nodes.length - 1 - k) (by omega))
    rw [hlast, show b.nodes.length - 1 - (b.nodes.length - 1 - k) = k by omega] at hlift
    exact hlift
  · unfold unfolding unfoldings
    rw [build_nodes hfits, harena.unfoldings_reverse 0]
    show trees.reverse[0]? = some t
    rw [List.getElem?_reverse (by omega), ← ht]
    congr 1
    omega

/-- A node that its parent uses twice. -/
theorem build_preserves_shared : let b : ScriptBuilder := ⟨[.witness, .pair 0 0]⟩
    runBuilder [] [.witness, .pair 0 0] .new = ([0, 1], b) ∧ b.build.validateStructure = .ok () ∧
      unfolding b.build = some (.pair .witness .witness) := by
  intro b
  have hreach : ∀ k < b.nodes.length, Reaches b.nodes 1 k
    | 0, _ => .single ⟨.pair 0 0, rfl, List.mem_cons_self⟩
    | 1, _ => .refl
  have hcalls : UsesEarlier 0 [.witness, .pair 0 0] := by simp [UsesEarlier, BuilderCall.uses]
  obtain ⟨hvalid, t, ht, hunfold⟩ := build_preserves hcalls rfl (r := 1) rfl hreach
  cases ht
  exact ⟨rfl, hvalid, hunfold⟩

end Exfer.Proof.Covenants
