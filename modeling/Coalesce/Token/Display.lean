import Coalesce.Text.Quoted
import Coalesce.Token

namespace Coalesce

def Kind.display : Kind → String
  | .literal => "Literal"
  | .interpolation => "Interpolation"

def Span.display (s : Span) : String := s.start.toNat.repr ++ ".." ++ s.stop.toNat.repr

def Token.display (t : Token) : String :=
  t.kind.display ++ "(" ++ Text.quoted t.text ++ ", " ++ t.span.display ++ ")"

end Coalesce
