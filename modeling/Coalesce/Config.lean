import Coalesce.Error
import Coalesce.Json.Record
import Coalesce.Json.Writer

namespace Coalesce

open Json Json.Reader

structure StreamConfig where
  bufferCapacity : UInt64 := 16
  deriving DecidableEq

structure Config where
  stream : StreamConfig := {}
  deriving DecidableEq

namespace StreamConfig

def record : Record (Option UInt64) StreamConfig where
  name := "StreamConfig"
  fields := [⟨"buffer_capacity", Option.isSome, fun _ => do return some (← word64)⟩]
  empty := none
  finish n := .ok (n.elim {} StreamConfig.mk)

def write (c : StreamConfig) : List Char :=
  writeObject [writeMember "buffer_capacity" (writeWord c.bufferCapacity)]

def toJson (c : StreamConfig) : String := String.ofList c.write

def ofJson (text : String) : Except Error StreamConfig := Error.ofParse (parse record.read text)

end StreamConfig

namespace Config

def record : Record (Option StreamConfig) Config where
  name := "CompressorConfig"
  fields := [⟨"stream", Option.isSome, fun _ => do return some (← StreamConfig.record.read)⟩]
  empty := none
  finish c := .ok (c.elim {} Config.mk)

def write (c : Config) : List Char := writeObject [writeMember "stream" c.stream.write]

def toJson (c : Config) : String := String.ofList c.write

def withBufferCapacity (c : Config) (n : UInt64) : Config :=
  { c with stream := { c.stream with bufferCapacity := n } }

def validate (c : Config) : Except Error Unit :=
  if c.stream.bufferCapacity = 0 then .error .zeroCapacity else .ok ()

/-- Every text that denotes a configuration, whether valid or not. -/
def parse (text : String) : Except Error Config := Error.ofParse (Reader.parse record.read text)

def ofJson (text : String) : Except Error Config := do
  let c ← parse text
  c.validate
  return c

end Config

end Coalesce
