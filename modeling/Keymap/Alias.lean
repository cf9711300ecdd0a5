import Keymap.Text.Template

namespace Keymap

structure Alias where
  name : Field
  description : Document
  params : Document
  qmkPattern : Document
  zmkPattern : Document
  support : Document := .list ["qmk", "zmk"]
  deriving Inhabited

abbrev Arguments := List (Document × Document)

namespace Alias

def fields (rule : Alias) : Entries :=
  [("alias_name", rule.name.toDocument), ("description", rule.description),
   ("params", rule.params), ("qmk_pattern", rule.qmkPattern), ("zmk_pattern", rule.zmkPattern),
   ("firmware_support", rule.support)]

def ofDocument (name : Field) (d : Document) : Result Alias := do
  d.checkForm ["description", "params", "qmk_pattern", "zmk_pattern"] ["firmware_support"]
  return {
    name
    description := d.getD "description"
    params := d.getD "params"
    qmkPattern := d.getD "qmk_pattern"
    zmkPattern := d.getD "zmk_pattern"
    support := d.getD "firmware_support" (.list ["qmk", "zmk"]) }

def supports (rule : Alias) (firmware : String) : Result Bool :=
  rule.support.has firmware

def argumentsFor (rule : Alias) (said : List String)
    (read : Document → String → Result Document) : Result Arguments := do
  (((← rule.params.members).zip said).foldlM fun args (param, text) => do
    Document.put param (← read param text) args) []

def namedArguments (firmware : String) (args : Arguments) : Result (List (String × Document)) := do
  let named ← args.mapM fun (name, value) =>
    match name with
    | .text s => Except.ok (s, value)
    | _ => .error (.mismatch "keywords must be strings")
  if (named.lookup "self").isSome then
    .error (.mismatch (s!"BehaviorAlias.translate_{firmware}() " ++
      "got multiple values for argument 'self'"))
  return named

def expand (pattern : Document) (args : List (String × Document)) : Result String := do
  Template.expand (← pattern.word "format") args

def toQmk (rule : Alias) (args : Arguments) : Result String := do
  let args ← namedArguments "qmk" args
  if ← rule.supports "qmk" then
    return Text.replace "KC_MAGIC" "QK_AREP" (← expand rule.qmkPattern args)
  else return "KC_NO"

def toZmk (rule : Alias) (args : Arguments) : Result String := do
  let args ← namedArguments "zmk" args
  if ← rule.supports "zmk" then expand rule.zmkPattern args else return "&none"

end Alias

abbrev Aliases := List Alias

def findAlias? (aliases : Aliases) (name : String) : Option Alias :=
  aliases.find? fun a => a.name = .word name

def aliasesOfDocument (d : Document) : Result Aliases :=
  (d.entries?.getD []).mapM fun (name, rule) => Alias.ofDocument name rule

end Keymap
