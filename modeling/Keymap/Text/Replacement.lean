import Keymap.Decimal.Reading
import Keymap.Fault

namespace Keymap.Text.Replacement

def fault (source : List Char) (problem : String) (place : Nat) : Fault :=
  let before := source.take place
  let line := before.count '\n' + 1
  let column := (before.reverse.takeWhile (· != '\n')).length + 1
  let lines := if source.contains '\n' then s!" (line {line}, column {column})" else ""
  .badEscape (s!"{problem} at position {place}" ++ lines)

def controls : List (Char × Nat) :=
  [('a', 7), ('b', 8), ('f', 12), ('n', 10), ('r', 13), ('t', 9), ('v', 11), ('\\', 92)]

def isOctal (c : Char) : Bool :=
  '0' ≤ c && c ≤ '7'

def octal (cs : List Char) : Nat :=
  cs.foldl (fun n c => 8 * n + (c.toNat - 48)) 0

def number (cs : List Char) : Nat :=
  cs.foldl (fun n c => 10 * n + (c.toNat - 48)) 0

def isName : List Char → Bool
  | [] => false
  | c :: cs => (isLetter c || c == '_') && cs.all isWordChar

def escape (source whole : List Char) (place : Nat) (cs : List Char) :
    Result (List Char × Nat) :=
  let char := fun n => [Char.ofNat n]
  let group := fun n length =>
    if n = 0 then .ok (whole, length)
    else .error (fault source s!"invalid group reference {n}" (place + 1))
  match cs with
  | [] => .error (fault source "bad escape (end of pattern)" place)
  | 'g' :: '<' :: rest =>
    let name := rest.takeWhile (· != '>')
    if name.length = rest.length then
      if name.isEmpty then .error (fault source "missing group name" (place + 3))
      else .error (fault source "missing >, unterminated name" (place + 3))
    else if name.isEmpty then .error (fault source "missing group name" (place + 3))
    else if isName name then
      .error (.outOfRange s!"unknown group name {Text.quote (String.ofList name)}")
    else match Decimal.readInt (String.ofList name) with
      | .ok 0 => .ok (whole, name.length + 3)
      | .ok (.ofNat n) => .error (fault source s!"invalid group reference {n}" (place + 3))
      | _ =>
        let text := Text.quote (String.ofList name)
        .error (fault source s!"bad character in group name {text}" (place + 3))
  | 'g' :: _ => .error (fault source "missing <" (place + 2))
  | '0' :: rest =>
    let digits := (rest.take 2).takeWhile isOctal
    .ok (char (octal digits % 256), digits.length + 1)
  | c :: rest =>
    if c.isDigit then
      match rest with
      | d :: e :: _ =>
        if isOctal c && isOctal d && isOctal e then
          if octal [c, d, e] > 255 then
            let text := String.ofList ['\\', c, d, e]
            .error (fault source s!"octal escape value {text} outside of range 0-0o377" place)
          else .ok (char (octal [c, d, e]), 3)
        else if d.isDigit then group (number [c, d]) 2
        else group (number [c]) 1
      | [d] => if d.isDigit then group (number [c, d]) 2 else group (number [c]) 1
      | [] => group (number [c]) 1
    else match controls.lookup c with
      | some n => .ok (char n, 1)
      | none =>
        if c.isAlpha then
          let text := String.ofList ['\\', c]
          .error (fault source s!"bad escape {text}" place)
        else .ok (['\\', c], 1)

/-- Expands the escapes of a text from a place on. `skip` counts the characters of the last escape
that are still to be dropped. -/
def expandFrom (source whole : List Char) (place : Nat) : Nat → List Char → Result (List Char)
  | _, [] => .ok []
  | skip + 1, _ :: cs => expandFrom source whole (place + 1) skip cs
  | 0, '\\' :: cs => do
    let (text, length) ← escape source whole place cs
    return text ++ (← expandFrom source whole (place + 1) length cs)
  | 0, c :: cs => do return c :: (← expandFrom source whole (place + 1) 0 cs)

def expand (replacement whole : String) : Result String := do
  return String.ofList (← expandFrom replacement.toList whole.toList 0 0 replacement.toList)

end Keymap.Text.Replacement
