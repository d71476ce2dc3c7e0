import Custody.Failure

/-!
# Replies

The store answers with a value and an ok flag; a client answers its callers with a value,
whether the action was a hit, an ok flag and, when it failed, the failure's text. The value of
a client reply says something only after a successful get.
-/

namespace Custody

abbrev Key := String

/-- Values are 64-bit words: sums of them wrap. -/
abbrev Value := Int64

structure StoreReply where
  value : Value
  ok : Bool
  deriving DecidableEq, Repr

namespace StoreReply

def granted (v : Value) : StoreReply := ⟨v, true⟩

def rejected : StoreReply := ⟨0, false⟩

end StoreReply

structure ClientReply where
  value : Value
  hit : Bool
  ok : Bool
  err : Option String
  deriving DecidableEq, Repr

namespace ClientReply

def cacheHit (v : Value) : ClientReply := ⟨v, true, true, none⟩

def fetched (v : Value) : ClientReply := ⟨v, false, true, none⟩

def released : ClientReply := ⟨0, true, true, none⟩

def failed (cause : Failure) : ClientReply := ⟨0, false, false, some cause.message⟩

/-- The failure's text, empty when there is none. -/
def errText (r : ClientReply) : String := r.err.getD ""

end ClientReply

end Custody
