import WalletBridge.Request.Body

/-!
# From a client's transaction to the device's

A part of a transaction becomes a part of a message to the device when its check succeeds.
-/

namespace WalletBridge.Request

open Device Text

def low32 (n : Int) : Nat := (n % 0x100000000).toNat

def TransactionInput.toSignInput (r : TransactionInput) : Except Errors SignInput := do
  validate r
  match r.hash, r.index with
  | some hash, some index => return { hash, index := low32 index }
  | _, _ => throw []

def TransactionOutput.toSignOutput (r : TransactionOutput) : Except Errors SignOutput := do
  validate r
  match r.address, r.coins.bind amount?, r.hours.bind amount? with
  | some address, some coins, some hours =>
    return { address, coins, hours, addressIndex := r.addressIndex }
  | _, _, _ => throw []

end WalletBridge.Request
