/-! A clock: the readings it will give, in seconds. When they are used up the last one is given
again. -/
namespace TapeVM

structure Clock where
  reading : Float := 0
  upcoming : List Float := []

namespace Clock

def read (clock : Clock) : Float × Clock :=
  match clock.upcoming with
  | [] => (clock.reading, clock)
  | reading :: upcoming => (reading, ⟨reading, upcoming⟩)

def fixed (reading : Float) : Clock := ⟨reading, []⟩

end Clock
end TapeVM
