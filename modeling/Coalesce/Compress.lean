import Coalesce.Merger

namespace Coalesce

/-- All tokens that pushing `ts` in order makes final, and the merger after them. -/
def Merger.feed (m : Merger) : List Token → List Token × Merger
  | [] => ([], m)
  | t :: ts =>
    let (e, m) := m.push t
    let (out, m) := m.feed ts
    (e.toList ++ out, m)

def compress (ts : List Token) : List Token :=
  let (out, m) := ({} : Merger).feed ts
  out ++ m.finish.1.toList

theorem Merger.feed_append (m : Merger) (ts us : List Token) :
    m.feed (ts ++ us) =
      ((m.feed ts).1 ++ ((m.feed ts).2.feed us).1, ((m.feed ts).2.feed us).2) := by
  induction ts generalizing m with
  | nil => rfl
  | cons t ts ih => simp [Merger.feed, ih]

theorem compress_eq (ts : List Token) :
    compress ts = (({} : Merger).feed ts).1 ++ (({} : Merger).feed ts).2.finish.1.toList := rfl

end Coalesce
