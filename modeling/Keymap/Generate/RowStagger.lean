import Keymap.Keylayout
import Keymap.Reading.Files

namespace Keymap.Generate

def templatePath : String := "scripts/templates/rowstagger_base.keylayout"

def keylayoutDirectory : String := "out/keylayout"

def keylayout (template name : String) : Work Bool :=
  let layout := Path.stem name
  let write : Work Bool := do
    let config ← Reading.rowStaggerFile name
    Work.writeText s!"{keylayoutDirectory}/{layout}.keylayout"
      (← liftM (Keylayout.render template config))
    Work.say s!"  ✅ Generated {layout}.keylayout"
    return true
  tryCatch write fun fault => do
    Work.say s!"  ❌ Error generating {name}: {fault.message}"
    return false

def keylayouts (verbose : Bool) : Work Unit := do
  let names ← Reading.rowStaggerFiles
  if names.isEmpty then return
  Work.say "\n🔨 Generating row-staggered .keylayout files..."
  Work.say s!"  Found {names.length} layout(s)"
  if !(← Work.isThere templatePath) then
    Work.say ("  ⚠️  Template not found: " ++ (← get).shown templatePath)
    Work.say "      Skipping row-stagger generation"
    return
  let template ← Work.readText templatePath
  Work.makeDirectories keylayoutDirectory
  let written ← names.filterM fun name => do
    if verbose then Work.say s!"  Processing {name}..."
    keylayout template name
  Work.say s!"\n✅ Generated {written.length}/{names.length} row-stagger layouts"

end Keymap.Generate
