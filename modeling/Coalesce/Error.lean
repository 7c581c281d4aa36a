import Coalesce.Json.Error

namespace Coalesce

inductive Error where
  | zeroCapacity
  | malformed (e : Json.Error)
  deriving DecidableEq

def Error.message : Error → String
  | zeroCapacity => "Invalid configuration: stream.buffer_capacity must be at least 1"
  | malformed e => "Serialization error: " ++ e.message

def Error.ofParse {α : Type} : Except Json.Error α → Except Error α
  | .ok a => .ok a
  | .error e => .error (malformed e)

end Coalesce
