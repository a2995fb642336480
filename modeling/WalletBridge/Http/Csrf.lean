/-!
# Tokens against forged requests

A token is given out by one request and must come back with every request that changes something.
It may be used any number of times until it expires. Times are in milliseconds.
-/

namespace WalletBridge.Http

/-- A token, and the time from which on it no longer counts. -/
structure Token where
  text : String
  expires : Nat
deriving DecidableEq, Repr

/-- The tokens given out, the latest first. -/
structure TokenStore where
  lifetime : Nat := 30000
  tokens : List Token := []
deriving DecidableEq, Repr

namespace TokenStore

def issue (store : TokenStore) (now : Nat) (text : String) : TokenStore :=
  { store with
    tokens := { text, expires := now + store.lifetime } ::
      store.tokens.filter fun t => now < t.expires && t.text != text }

def verify (store : TokenStore) (now : Nat) (text : String) : Bool :=
  store.tokens.any fun t => t.text == text && now < t.expires

end TokenStore

end WalletBridge.Http
