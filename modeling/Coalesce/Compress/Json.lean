import Coalesce.Compress
import Coalesce.Token.Json

namespace Coalesce

def compressJson (text : String) : Except Error String := do
  return Token.listToJson (compress (← Token.listOfJson text))

end Coalesce
