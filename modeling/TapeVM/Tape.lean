/-! The tape: a fixed number of byte cells. -/
namespace TapeVM

abbrev Tape := Array UInt8

def Tape.blank (size : Nat) : Tape := Array.replicate size 0

end TapeVM
