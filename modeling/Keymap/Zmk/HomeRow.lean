import Keymap.Zmk.Hands
import Keymap.Zmk.Nodes

/-!
Home-row mods: they are held only while keys of the other hand, or thumb keys, are pressed, so each
hand has a behaviour of its own with the positions of the board.
-/

namespace Keymap.Zmk

def holdPositions (size : LayoutSize) : Hand → List Nat
  | .left => (handsOf size).right ++ (handsOf size).thumbs
  | .right => (handsOf size).left ++ (handsOf size).thumbs

def positionsText (ps : List Nat) : String :=
  Text.join " " (ps.map toString)

def homeRowProperties (timing : Timing) (size : LayoutSize) (hand : Hand) : Properties :=
  assign "hold-trigger-on-release" .flag
    (assign "hold-trigger-key-positions" (.cells (positionsText (holdPositions size hand)))
      (timingProperties timing))

def withHomeRow (behaviors : Behaviors) (size : LayoutSize) (table : BehaviorTable) :
    BehaviorTable :=
  assign "hmr" (homeRowProperties behaviors.homeRowMods size .right)
    (assign "hml" (homeRowProperties behaviors.homeRowMods size .left) table)

def homeRowTiming (t : Timing) : List String :=
  [s!"            flavor = \"{t.flavor.toText}\";"] ++
  (if t.priorIdle.isNull then []
    else [s!"            require-prior-idle-ms = <{t.priorIdle.toText}>;"]) ++
  [s!"            tapping-term-ms = <{t.tappingTerm.toText}>;",
   s!"            quick-tap-ms = <{t.quickTap.toText}>;"]

def homeRowNode (t : Timing) (name node label note : String) (positions : List Nat) :
    List String :=
  [s!"        {name}: {node} \x7b",
   "            compatible = \"zmk,behavior-hold-tap\";",
   s!"            label = \"{label}\";",
   "            #binding-cells = <2>;"] ++
  homeRowTiming t ++
  ["            bindings = <&kp>, <&kp>;",
   s!"            hold-trigger-key-positions = <{positionsText positions}>;  // {note}",
   "            hold-trigger-on-release;",
   "        \x7d;"]

def homeRowSection (behaviors : Behaviors) (size : LayoutSize) : String :=
  let t := behaviors.homeRowMods
  Text.unlines (
    ["",
     s!"    // Board-specific home row mods (hold-trigger positions for {size.text})",
     "    behaviors \x7b"] ++
    homeRowNode t "hml" "home_row_mod_left" "HOME_ROW_MOD_LEFT" "right hand + all thumbs"
      (holdPositions size .left) ++
    [""] ++
    homeRowNode t "hmr" "home_row_mod_right" "HOME_ROW_MOD_RIGHT" "left hand + all thumbs"
      (holdPositions size .right) ++
    ["    \x7d;",
     ""])

end Keymap.Zmk
