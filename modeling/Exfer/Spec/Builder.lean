import Exfer.Impl.Covenants.Builder
import Exfer.Spec.Script.Tree

/-!
# What builder calls describe

A sequence of calls of the script builder, each of which may use the results of earlier calls, and the
trees that it describes.
-/

namespace Exfer.Spec

open Impl Impl.Script Impl.Covenants Spec.Script

/-- A call of a method of the builder. Where the method takes the id of a node, the call has the number
of the earlier call that returned it. -/
inductive BuilderCall where
  | iden
  | unit
  | witness
  | constant (v : Value)
  | jet (id : JetId)
  | comp (f g : Nat)
  | pair (f g : Nat)
  | take (f : Nat)
  | dropNode (f : Nat)
  | injl (f : Nat)
  | injr (f : Nat)
  | case (f g : Nat)
  | fold (f z : Nat) (k : UInt64)
  | listFold (f z : Nat)
  | constFalse
  | constTrue
  | sigCheck (pubkey : Vector UInt8 32)
  | hashEq (expected : Hash256)
  | heightGt (height : UInt64)
  | heightLt (height : UInt64)
  | and (a b : Nat)
  | or (a b : Nat)

namespace BuilderCall

/-- The earlier calls whose results a call uses. -/
def uses : BuilderCall → List Nat
  | .take f | .dropNode f | .injl f | .injr f => [f]
  | .comp f g | .pair f g | .case f g | .listFold f g | .fold f g _ | .and f g | .or f g => [f, g]
  | _ => []

/-- Run a call after calls that returned `ids`. -/
def run (ids : List NodeId) : BuilderCall → BuilderM NodeId
  | .iden => ScriptBuilder.iden
  | .unit => ScriptBuilder.unit
  | .witness => ScriptBuilder.witness
  | .constant v => ScriptBuilder.constant v
  | .jet id => ScriptBuilder.jet id
  | .comp f g => ScriptBuilder.comp (ids.getD f 0) (ids.getD g 0)
  | .pair f g => ScriptBuilder.pair (ids.getD f 0) (ids.getD g 0)
  | .take f => ScriptBuilder.take (ids.getD f 0)
  | .dropNode f => ScriptBuilder.dropNode (ids.getD f 0)
  | .injl f => ScriptBuilder.injl (ids.getD f 0)
  | .injr f => ScriptBuilder.injr (ids.getD f 0)
  | .case f g => ScriptBuilder.case (ids.getD f 0) (ids.getD g 0)
  | .fold f z k => ScriptBuilder.fold (ids.getD f 0) (ids.getD z 0) k
  | .listFold f z => ScriptBuilder.listFold (ids.getD f 0) (ids.getD z 0)
  | .constFalse => ScriptBuilder.constFalse
  | .constTrue => ScriptBuilder.constTrue
  | .sigCheck pubkey => ScriptBuilder.sigCheck pubkey
  | .hashEq expected => ScriptBuilder.hashEq expected
  | .heightGt height => ScriptBuilder.heightGt height
  | .heightLt height => ScriptBuilder.heightLt height
  | .and a b => ScriptBuilder.and (ids.getD a 0) (ids.getD b 0)
  | .or a b => ScriptBuilder.or (ids.getD a 0) (ids.getD b 0)

end BuilderCall

/-! ## The described trees -/

/-- A signature of the signing digest, from the witness, that a key verifies. -/
def sigCheckTree (pubkey : Vector UInt8 32) : ScriptTree :=
  .comp (.pair (.comp .unit (.jet .txSigHash)) (.pair (.const (.bytes pubkey.toList)) .witness))
    (.jet .ed25519Verify)

/-- A byte string from the witness that has the given hash. -/
def hashEqTree (expected : Hash256) : ScriptTree :=
  .comp (.pair (.comp .witness (.jet .sha256)) (.const (.hash expected))) (.jet .eqHash)

/-- The block height compared with a bound. -/
def heightTree (compare : JetId) (height : UInt64) : ScriptTree :=
  .comp (.pair (.comp .unit (.jet .blockHeight)) (.const (.u64 height))) (.jet compare)

/-- The second function if the first returns true, and false if not. -/
def andTree (a b : ScriptTree) : ScriptTree :=
  .comp a (.case (.const (.bool false)) b)

/-- True if the first function returns true, and the second function if not. -/
def orTree (a b : ScriptTree) : ScriptTree :=
  .comp a (.case b (.const (.bool true)))

/-- The tree that a call describes, after calls that described `trees`. -/
def BuilderCall.tree (trees : List ScriptTree) : BuilderCall → ScriptTree
  | .iden => .iden
  | .unit => .unit
  | .witness => .witness
  | .constant v => .const v
  | .jet id => .jet id
  | .comp f g => .comp (trees.getD f .unit) (trees.getD g .unit)
  | .pair f g => .pair (trees.getD f .unit) (trees.getD g .unit)
  | .take f => .take (trees.getD f .unit)
  | .dropNode f => .drop (trees.getD f .unit)
  | .injl f => .injL (trees.getD f .unit)
  | .injr f => .injR (trees.getD f .unit)
  | .case f g => .case (trees.getD f .unit) (trees.getD g .unit)
  | .fold f z k => .fold (trees.getD f .unit) (trees.getD z .unit) k
  | .listFold f z => .listFold (trees.getD f .unit) (trees.getD z .unit)
  | .constFalse => .const (.bool false)
  | .constTrue => .const (.bool true)
  | .sigCheck pubkey => sigCheckTree pubkey
  | .hashEq expected => hashEqTree expected
  | .heightGt height => heightTree .gt64 height
  | .heightLt height => heightTree .lt64 height
  | .and a b => andTree (trees.getD a .unit) (trees.getD b .unit)
  | .or a b => orTree (trees.getD a .unit) (trees.getD b .unit)

/-! ## Sequences of calls -/

/-- Every call, after `n` calls, uses results of earlier calls only. -/
def UsesEarlier : (n : Nat) → List BuilderCall → Prop
  | _, [] => True
  | n, call :: calls => (∀ k ∈ call.uses, k < n) ∧ UsesEarlier (n + 1) calls

/-- Run the calls after calls that returned `ids`; the results of all calls. -/
def runBuilder (ids : List NodeId) : List BuilderCall → BuilderM (List NodeId)
  | [] => return ids
  | call :: calls => do
    let id ← call.run ids
    runBuilder (ids ++ [id]) calls

/-- The trees that the calls describe after calls that described `trees`. -/
def describe (trees : List ScriptTree) : List BuilderCall → List ScriptTree
  | [] => trees
  | call :: calls => describe (trees ++ [call.tree trees]) calls

end Exfer.Spec
