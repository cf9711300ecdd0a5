import Keymap.Decimal.Reading
import Keymap.Document.Access

namespace Keymap

structure RowStagger where
  name : Document
  id : Document
  group : Document
  layout : List (List String)
  fingers : Option (List (List Int)) := none
  deriving Inhabited

namespace RowStagger

def finger (d : Document) : Result Int :=
  match d with
  | .whole n => .ok n
  | .flag b => .ok (if b then 1 else 0)
  | .decimal x =>
    match x.truncate? with
    | some n => .ok n
    | none =>
      if x.isNaN then .error (.malformed "cannot convert float NaN to integer")
      else .error (.overflow "cannot convert float infinity to integer")
  | .text s =>
    match Decimal.readInt s with
    | .ok n => .ok n
    | .error reason => .error (.malformed (reason.message (Text.quote s)))
  | d =>
    .error (.mismatch (s!"int() argument must be a string, a bytes-like object or a real number, " ++
      s!"not '{d.kind}'"))

def ofParts (name id group layout fingers : Document) : Result RowStagger := do
  let layout ← (← layout.members).mapM fun row => do
    return (← row.members).map Document.toText
  let fingers ← match fingers with
    | .null => pure none
    | d => do
      let rows ← (← d.members).mapM fun row => do (← row.members).mapM finger
      pure (some rows)
  return { name, id, group, layout, fingers }

def ofDocument (d : Document) : Result RowStagger := do
  d.checkForm ["name", "id", "group", "layout"] ["fingermap"]
  ofParts (d.getD "name") (d.getD "id") (d.getD "group") (d.getD "layout") (d.getD "fingermap")

def layoutDocument (rows : List (List String)) : Document :=
  .list (rows.map fun row => .list (row.map .text))

def fingersDocument (r : RowStagger) : Document :=
  match r.fingers with
  | some rows => .list (rows.map fun row => .list (row.map .whole))
  | none => .null

def fields (r : RowStagger) : Entries :=
  [("name", r.name), ("id", r.id), ("group", r.group), ("layout", layoutDocument r.layout),
   ("fingermap", r.fingersDocument)]

def rowLengths : List Nat := [12, 11, 10]

def validate (r : RowStagger) : Result Unit := do
  if r.layout.length != 3 then
    invalid s!"Row-stagger layout must have exactly 3 rows, found {r.layout.length}"
  for ((row, expected), i) in (r.layout.zip rowLengths).zipIdx do
    if row.length != expected then
      invalid s!"Row {i + 1} must have {expected} keys, found {row.length}"

end RowStagger

end Keymap
