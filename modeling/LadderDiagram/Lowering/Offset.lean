import LadderDiagram.Body.Basic

/-!
# Bands of the canvas

Every rung is drawn on a canvas of its own that begins at zero. In a body the
rungs lie one below the other: an `Offset` moves a rung down by the heights of
the rungs before it.
-/

namespace LadderDiagram

/-- How far a rung is moved down. -/
structure Offset where
  y : Float
  deriving DecidableEq

namespace Offset

def zero : Offset := ⟨0⟩

/-- The height that a rung takes: only a finite positive one counts. -/
def bandHeight (height : Float) : Float := if height.isFinite && 0 < height then height else 0

/-- The offset of the rung below one of the given height. -/
def advance (o : Offset) (height : Float) : Offset := ⟨o.y + bandHeight height⟩

def apply (o : Offset) (p : Point) : Point := p.down o.y

def place (o : Offset) (n : Node) : Body.Geometry := ⟨o.apply n.position, n.width, n.height⟩

/-- The offsets of rungs of the given heights, the first at `o`. -/
def stack (o : Offset) : List Float → List Offset
  | [] => []
  | height :: rest => o :: stack (o.advance height) rest

def ofRungs (rungs : List Rung) : List Offset := stack zero (rungs.map (·.height))

end Offset

end LadderDiagram
