import TapeVM.Decimal
import TapeVM.Tape
import TapeVM.Text.Style

/-! The part of a tape around its cursor, as text. -/
namespace TapeVM.Tape

def cellText (cursor : Int) (index : Nat) (value : UInt8) : String :=
  let digits := Decimal.natural value.toNat
  if (index : Int) = cursor then Text.Style.cursor.paint ("[" ++ digits ++ "]") else digits

/-- The cells at most `radius` away from the cursor, with dots where the tape goes on. The cursor
may be off the tape; then no cell is marked. -/
def window (tape : Tape) (cursor radius : Int) : String :=
  let start : Int := max 0 (cursor - radius)
  let finish : Int := min tape.size (cursor + radius + 1)
  let cells := ((tape.extract start.toNat finish.toNat).toList.zipIdx start.toNat).map
    fun (value, index) => cellText cursor index value
  (if 0 < start then "… " else "") ++ " ".intercalate cells ++
    (if finish < tape.size then " …" else "")

end TapeVM.Tape
