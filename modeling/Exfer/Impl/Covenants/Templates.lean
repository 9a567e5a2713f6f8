import Exfer.Impl.Covenants.Builder

/-!
# Covenant templates

`covenants/multisig.rs`, `covenants/escrow.rs`, `covenants/vault.rs`, `covenants/delegation.rs` and the
scripts of `covenants/channel.rs`.
-/

namespace Exfer.Impl.Covenants

open Impl.Script ScriptBuilder

/-- `build` after the calls of a template, the last of which makes the root. -/
def ofCalls (calls : BuilderM NodeId) : Program :=
  (calls.run .new).2.build

/-! ## Multisig -/

def multisig2of2 (pkA pkB : Vector UInt8 32) : Program := ofCalls do
  let checkA ← sigCheck pkA
  let checkB ← sigCheck pkB
  and checkA checkB

def multisig1of2 (pkA pkB : Vector UInt8 32) : Program := ofCalls do
  let checkA ← sigCheck pkA
  let checkB ← sigCheck pkB
  let selector ← witness
  let caseNode ← case checkA checkB
  comp selector caseNode

def multisig2of3 (pkA pkB pkC : Vector UInt8 32) : Program := ofCalls do
  let checkA1 ← sigCheck pkA
  let checkB1 ← sigCheck pkB
  let comboAB ← and checkA1 checkB1
  let checkA2 ← sigCheck pkA
  let checkC1 ← sigCheck pkC
  let comboAC ← and checkA2 checkC1
  let checkB2 ← sigCheck pkB
  let checkC2 ← sigCheck pkC
  let comboBC ← and checkB2 checkC2
  let innerCase ← case comboAB comboAC
  let outerCase ← case innerCase comboBC
  let selector ← witness
  comp selector outerCase

/-! ## Escrow, vault and delegation -/

def escrow (partyA partyB arbiter : Vector UInt8 32) (timeoutHeight : UInt64) : Program := ofCalls do
  let checkA ← sigCheck partyA
  let checkB ← sigCheck partyB
  let mutual' ← and checkA checkB
  let arbiterCheck ← sigCheck arbiter
  let timeout ← heightGt timeoutHeight
  let refundCheck ← sigCheck partyA
  let timeoutPath ← and timeout refundCheck
  let innerCase ← case mutual' arbiterCheck
  let outerCase ← case innerCase timeoutPath
  let selector ← witness
  comp selector outerCase

def vault (primaryKey recoveryKey : Vector UInt8 32) (locktime : UInt64) : Program := ofCalls do
  let timeCheck ← heightGt locktime
  let primaryCheck ← sigCheck primaryKey
  let normalPath ← and timeCheck primaryCheck
  let recoveryCheck ← sigCheck recoveryKey
  let selector ← witness
  let caseNode ← case normalPath recoveryCheck
  comp selector caseNode

def delegation (ownerKey delegateKey : Vector UInt8 32) (expiryHeight : UInt64) : Program := ofCalls do
  let ownerCheck ← sigCheck ownerKey
  let delegateCheck ← sigCheck delegateKey
  let timeCheck ← heightLt expiryHeight
  let delegatePath ← and delegateCheck timeCheck
  let selector ← witness
  let caseNode ← case ownerCheck delegatePath
  comp selector caseNode

/-! ## Channels -/

structure PaymentChannel where
  partyA : Vector UInt8 32
  partyB : Vector UInt8 32
  disputeWindow : UInt64

namespace PaymentChannel

/-- `close_height.saturating_add(self.dispute_window)`. -/
def windowEnd (channel : PaymentChannel) (closeHeight : UInt64) : UInt64 :=
  if closeHeight.toNat + channel.disputeWindow.toNat < 2 ^ 64 then closeHeight + channel.disputeWindow
  else 18446744073709551615

def closeScript (channel : PaymentChannel) (closeHeight : UInt64) (publisher : Vector UInt8 32) :
    Program := ofCalls do
  let checkA ← sigCheck channel.partyA
  let checkB ← sigCheck channel.partyB
  let cooperative ← and checkA checkB
  let timeCheck ← heightGt (channel.windowEnd closeHeight)
  let pubCheck ← sigCheck publisher
  let finalize ← and timeCheck pubCheck
  let selector ← witness
  let caseNode ← case cooperative finalize
  comp selector caseNode

def disputeScript (channel : PaymentChannel) (closeHeight : UInt64) : Program := ofCalls do
  let checkA1 ← sigCheck channel.partyA
  let checkB1 ← sigCheck channel.partyB
  let bothSigned ← and checkA1 checkB1
  let inWindow ← heightLt (channel.windowEnd closeHeight)
  let challenge ← and bothSigned inWindow
  let checkA2 ← sigCheck channel.partyA
  let checkB2 ← sigCheck channel.partyB
  let cooperative ← and checkA2 checkB2
  let selector ← witness
  let caseNode ← case challenge cooperative
  comp selector caseNode

end PaymentChannel

end Exfer.Impl.Covenants
