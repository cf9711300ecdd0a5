import Keymap.Text.Pattern

namespace Keymap.Drawing

open Text (Pattern)

def isQuoteMark (c : Char) : Bool :=
  c == '\'' || c == '"'

def markerPattern : Pattern :=
  .all [.optional (.one isQuoteMark), .text "SM", .one (fun c => c == ' ' || c == '_'),
    .text "MARKER:", .group (.atLeastOne fun c => !(c == '|' || isQuoteMark c)), .text "|",
    .group (.atLeastOne fun c => !(isQuoteMark c || Text.isBlank c)),
    .optional (.one isQuoteMark)]

def twoLegends (tap shifted : String) : String :=
  "\x7bt: \"" ++ tap ++ "\", s: \"" ++ shifted ++ "\"\x7d"

def expandMarkers (keymap : String) : String :=
  markerPattern.replaceAll (fun f => twoLegends (f.group 0) (f.group 1)) keymap

end Keymap.Drawing
