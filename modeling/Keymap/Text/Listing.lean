import Keymap.Text.Quoted
import Keymap.Text.Edit

namespace Keymap.Text

def sortedSet (xs : List String) : List String :=
  xs.eraseDups.mergeSort fun a b => decide (a ≤ b)

def setText (xs : List String) : String :=
  "\x7b" ++ join ", " ((sortedSet xs).map quote) ++ "\x7d"

end Keymap.Text
