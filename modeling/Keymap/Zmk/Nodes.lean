import Keymap.Zmk.Properties

namespace Keymap.Zmk

structure Trigger where
  name : String
  keys : List String
  binding : String
  strict : Bool := false
  maxIdle : Option String := none
  deriving DecidableEq, Repr

structure AdaptiveKey where
  name : String
  binding : String
  triggers : List Trigger
  deriving DecidableEq, Repr

namespace Trigger

def lines (note : String) (t : Trigger) : List String :=
  [s!"            {t.name} \x7b",
   "                trigger-keys = <" ++ Text.join " " t.keys ++ ">;",
   s!"                bindings = <{t.binding}>;"] ++
  (if t.strict then ["                strict-modifiers;" ++ note] else []) ++
  (match t.maxIdle with
    | some ms => [s!"                max-prior-idle-ms = <{ms}>;"]
    | none => []) ++
  ["            \x7d;"]

end Trigger

namespace AdaptiveKey

def lines (gap : List String) (note : String) (k : AdaptiveKey) : List String :=
  [s!"        {k.name}: {k.name} \x7b",
   "            compatible = \"zmk,behavior-adaptive-key\";",
   "            #binding-cells = <0>;",
   s!"            bindings = <{k.binding}>;"] ++
  gap ++ k.triggers.flatMap (Trigger.lines note) ++ ["        \x7d;", ""]

end AdaptiveKey

structure HoldTap where
  name : String
  label : String
  properties : Properties
  hold : String
  tap : String

namespace HoldTap

def lines (h : HoldTap) : List String :=
  [s!"        {h.name}: {h.name} \x7b",
   "            compatible = \"zmk,behavior-hold-tap\";",
   s!"            label = \"{h.label}\";",
   "            #binding-cells = <2>;"] ++
  propertyLines h.properties ownProperties ++
  [s!"            bindings = <{h.hold}>, <{h.tap}>;",
   "        \x7d;",
   ""]

end HoldTap

/-- A time of zero, or below, sets no limit. -/
def timeLimit (ms : Document) : Result (Option String) := do
  return if ← ms.isAbove 0 then some ms.toText else none

end Keymap.Zmk
