import Keymap.Reading.Family

namespace Keymap.Drawing

def settingsPath : String := ".keymap-drawer-config.yaml"

def withLayerNames (settings : Document) (names : Families.LayerNames) : Result Document := do
  let hasSection ← settings.has "parse_config"
  let settings ← if hasSection then pure settings
    else settings.set "parse_config" (.record [])
  let parse ← settings.field "parse_config"
  let parse ← parse.set "layer_names" (.list (names.names.map .text))
  let parse ← parse.set "layer_legend_map" (.record names.legends)
  let hasMap ← parse.has "raw_binding_map"
  let parse ← if hasMap then pure parse else parse.set "raw_binding_map" (.record [])
  let bindings ← parse.field "raw_binding_map"
  let bindings ← names.defaults.foldlM (fun d (key, label) => d.set key label) bindings
  settings.set "parse_config" (← parse.set "raw_binding_map" bindings)

def layerLine (families : Families) (name : String) (i : Nat) : Result String := do
  let shown ← families.displayName (.text name)
  return s!"   L{i}: {Text.padRight 20 name} → {shown.toText}"

def updateSettings : Work Unit := do
  Work.say s!"📝 Updating {settingsPath}..."
  let settings ← Work.readDocument settingsPath
  let families ← Reading.families
  let names ← liftM families.layerNames
  let updated ← liftM (withLayerNames settings names)
  Work.write settingsPath (.document updated true)
  Work.say s!"✅ Updated {settingsPath}"
  Work.say s!"   - {names.names.length} layer names"
  Work.say s!"   - {names.legends.length} legend mappings"
  Work.say s!"   - {names.defaults.length} DF() keycodes"
  Work.say "\n📋 Layer order (matches QMK enum):"
  for (name, i) in names.names.zipIdx do
    Work.say (← liftM (layerLine families name i))

def updateProgram : Work (Nat × List String) :=
  tryCatch (do updateSettings; return (0, [])) fun fault =>
    return (1, [s!"❌ Error updating config: {fault.message}"])

end Keymap.Drawing
