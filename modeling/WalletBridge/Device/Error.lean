import WalletBridge.Os.Error

/-!
# Why a device call failed

Six kinds, each with a text; the status a client sees depends on the kind alone.
-/

namespace WalletBridge.Device

inductive Error where
  /-- No device answers. -/
  | notConnected (message : String)
  /-- The user refused on the device. -/
  | cancelled
  /-- The device did not accept the request. -/
  | invalidArgument (message : String)
  | failure (message : String)
  /-- The way to the device failed. -/
  | transport (error : Os.Error)
  /-- The answer made no sense. -/
  | protocol (message : String)
deriving DecidableEq, Repr

def Error.describe : Error → String
  | .notConnected m => "device not connected: " ++ m
  | .cancelled => "operation cancelled on device"
  | .invalidArgument m => "invalid argument: " ++ m
  | .failure m => "device failure: " ++ m
  | .transport e => "transport error: " ++ e.describe
  | .protocol m => "malformed device response: " ++ m

end WalletBridge.Device
