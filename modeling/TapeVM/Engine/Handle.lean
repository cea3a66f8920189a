import TapeVM.Engine

/-! Handles on engines. Whoever owns an engine can change its tape size. The engine that all share
keeps the size it was made with: a size that is set on a handle to it is shown by that handle from
then on, and nothing else comes of it. -/
namespace TapeVM.Engine

inductive Handle where
  | own (engine : Engine)
  | shared (host : Host) (shown : Option Int)
  deriving DecidableEq, Repr

namespace Handle

def engine : Handle → Engine
  | own engine => engine
  | shared host _ => { host }

def tapeSize : Handle → Int
  | own engine => engine.tapeSize
  | shared _ shown => shown.getD defaultTapeSize

def setTapeSize : Handle → Int → Handle
  | own engine, size => own { engine with tapeSize := size }
  | shared host _, size => shared host (some size)

end Handle
end TapeVM.Engine
