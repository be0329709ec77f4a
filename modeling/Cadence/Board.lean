import Cadence.Table.Basic

/-!
A board of short status texts, one line for each component.
-/

namespace Cadence

structure Board where
  lines : Table String String := ∅
  deriving DecidableEq, Inhabited

namespace Board

instance : EmptyCollection Board := ⟨{}⟩

def set (b : Board) (component text : String) : Board :=
  { lines := b.lines.insert component text }

def get? (b : Board) (component : String) : Option String := b.lines[component]?

def remove (b : Board) (component : String) : Board :=
  { lines := b.lines.erase component }

end Board

end Cadence
