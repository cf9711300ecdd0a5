import Keymap.Proofs.Assignments
import Keymap.Proofs.CodeRuns
import Keymap.Proofs.Outcome
import Keymap.Qmk.Magic

namespace Keymap.Qmk

open Code List
open Token (word mark)

variable {f : MagicFunction} {keycodes : Entries} {d : Document} {first m : MagicMapping} {key : Nat}
  {α β : Type} {s : MagicSwitch} {layers : List CompiledLayer} {p : String → Prop} {name previous : String}
  {switches : List MagicSwitch} {baseLayer : Document} {e : Field × Document} {rest : MagicConfig}
  {value : Values} {xs : List α}

structure MagicSwitch.Legible (s : MagicSwitch) : Prop where
  name : IsName s.baseLayer
  plain : Plain s.baseLayer
  cases : ∀ c ∈ s.cases, Plain c.label ∧ Plain c.result

structure MagicFunction.Legible (f : MagicFunction) : Prop where
  switches : ∀ s ∈ f.switches, s.Legible
  default : Plain f.default.result
  comment : '\n' ∉ f.default.comment.toList

namespace MagicFunction

variable {rest : List Token}

def casesOf (s : MagicSwitch) : List (Expression × Expression) :=
  s.cases.map fun c => (line c.label, line c.result)

theorem code_caseLine {c : MagicCase} (h : Plain c.label) (result : Plain c.result) :
    code (caseLine c) = word "case" ::
      (line c.label ++ mark ':' :: word "return" :: (line c.result ++ [mark ';'])) := by
  have hr : Closes ("            case " ++ c.label ++ ": return " ++ c.result ++ ";")
      ([word "case"] ++ line c.label ++ [mark ':', word "return"] ++ line c.result ++ [mark ';']) :=
    ((((closes_ofList (by decide)).append_reads h.reads).append_closes
      (closes_ofList (by decide)) rfl).append_reads result.reads).append_closes
      (closes_ofList (by decide)) rfl
  refine hr.code_eq.trans ?_
  simp

def switchCode (s : MagicSwitch) : List Token :=
  word "if" :: mark '(' :: word "base_layer" :: mark '=' :: mark '=' :: word s.baseLayer ::
    mark ')' :: mark '\x7b' :: word "switch" :: mark '(' :: ([word "keycode"] ++
      mark ')' :: mark '\x7b' :: (caseCode (casesOf s) ++ [mark '\x7d', mark '\x7d']))

theorem code_switchLines (h : s.Legible) : (switchLines s).flatMap code = switchCode s := by
  have hc : Comments ("    // " ++ s.baseLayer ++ " family") [] := by
    rw [String.append_assoc]
    exact (comments_ofList (by decide)).append
      (single_append h.name.reads.single (by decide))
  have ht : Closes ("    if (base_layer == " ++ s.baseLayer ++ ") \x7b")
      ([word "if", mark '(', word "base_layer", mark '=', mark '='] ++ [word s.baseLayer] ++
        [mark ')', mark '\x7b']) :=
    ((closes_ofList (by decide)).append_reads h.name.reads).append_closes
      (closes_ofList (by decide)) rfl
  have hs : Closes "        switch (keycode) \x7b"
      [word "switch", mark '(', word "keycode", mark ')', mark '\x7b'] :=
    closes_ofList (by decide)
  have hbl : (s.cases.map caseLine).flatMap code = caseCode (casesOf s) := by
    rw [casesOf, caseCode, flatMap_map, flatMap_map]
    exact flatMap_congr fun c hm =>
      code_caseLine (h.cases c hm).1 (h.cases c hm).2
  have he : Closes "        \x7d" [mark '\x7d'] := closes_ofList (by decide)
  have hed : Closes "    \x7d" [mark '\x7d'] := closes_ofList (by decide)
  have hb : code "" = [] := rfl
  have hcc : code (toString "    // " ++ toString s.baseLayer ++ toString " family") = [] := hc.code_eq
  have htc : code (toString "    if (base_layer == " ++ toString s.baseLayer ++ toString ") \x7b") = _ :=
    ht.code_eq
  simp [switchLines, hcc, htc, hs.code_eq, hbl, he.code_eq, hed.code_eq, hb, switchCode]

def functionName : String := "get_alt_repeat_key_keycode_user"

theorem code_render (h : f.Legible) :
    code f.render = [word "uint16_t"] ++ word functionName :: ([mark '(', word "uint16_t",
      word "keycode", mark ',', word "uint8_t", word "mods", mark ')', mark '\x7b',
      word "uint8_t", word "base_layer", mark '=', word "get_current_base_layer", mark '(',
      mark ')', mark ';'] ++ (f.switches.flatMap switchCode ++
      word "return" :: (line f.default.result ++ [mark ';', mark '\x7d']))) := by
  have hh : Closes "uint16_t get_alt_repeat_key_keycode_user(uint16_t keycode, uint8_t mods) \x7b"
      [word "uint16_t", word functionName, mark '(', word "uint16_t", word "keycode",
        mark ',', word "uint8_t", word "mods", mark ')', mark '\x7b'] :=
    closes_ofList (by decide +kernel)
  have hb : Closes "    uint8_t base_layer = get_current_base_layer();"
      [word "uint8_t", word "base_layer", mark '=', word "get_current_base_layer", mark '(',
        mark ')', mark ';'] := closes_ofList (by decide)
  have ht : Comments "// Magic key configuration (alternate repeat key)" [] := comments_ofList (by decide)
  have hn : Comments "    // Get current base layer (not active overlay)" [] := comments_ofList (by decide)
  have hi : Closes "    " [] := closes_ofList (by decide)
  have hbr : Closes "\x7d" [mark '\x7d'] := closes_ofList (by decide)
  have hbl : code "" = [] := rfl
  have hr : code (toString "    // Default: " ++ toString f.default.comment) = [] :=
    ((comments_ofList (by decide)).append h.comment).code_eq
  have hd : Closes ("    return " ++ f.default.result ++ ";")
      ([word "return"] ++ line f.default.result ++ [mark ';']) :=
    ((closes_ofList (by decide)).append_reads h.default.reads).append_closes
      (closes_ofList (by decide)) rfl
  have hdc : code (toString "    return " ++ toString f.default.result ++ toString ";") = _ := hd.code_eq
  have hbc : (f.switches.flatMap switchLines).flatMap code = f.switches.flatMap switchCode := by
    rw [flatMap_assoc]
    exact flatMap_congr fun s hm => code_switchLines (h.switches s hm)
  rw [render, code_unlines]
  simp [ht.code_eq, hh.code_eq, hn.code_eq, hb.code_eq, hi.code_eq, hbr.code_eq, hbl, hr, hdc, hbc]

def picked? (value : Values) (s : MagicSwitch) : Option String :=
  if value [word "base_layer"] = value [word s.baseLayer] then
    (s.cases.find? fun c => value (line c.label) = value [word "keycode"]).map (·.result)
  else none

theorem quiet_casesOf (h : s.Legible) : ∀ c ∈ casesOf s, Quiet c.1 ∧ Quiet c.2 := by
  rw [casesOf, forall_mem_map]
  exact fun c hm => ⟨(h.cases c hm).1.quiet, (h.cases c hm).2.quiet⟩

theorem result_switchCode (h : s.Legible) : result value .running (switchCode s ++ rest) =
      match picked? value s with
      | some code => some (line code)
      | none => result value .running rest := by
  have hq := quiet_casesOf h
  have ht : Quiet [word s.baseLayer] := h.name.reads.line_eq ▸ h.plain.quiet
  have hi : switchCode s ++ rest = word "if" :: mark '(' :: word "base_layer" :: mark '=' ::
      mark '=' :: word s.baseLayer :: mark ')' :: mark '\x7b' :: word "switch" :: mark '(' ::
      ([word "keycode"] ++ mark ')' :: mark '\x7b' ::
        (caseCode (casesOf s) ++ mark '\x7d' :: mark '\x7d' :: rest)) := by
    simp [switchCode]
  rw [hi, running_if (by simp [Quiet, stops]) ht, picked?]
  split
  · have hf : ((casesOf s).find? fun c => value c.1 = value [word "keycode"]) =
        (s.cases.find? fun c => value (line c.label) = value [word "keycode"]).map
          fun c => (line c.label, line c.result) := by
      rw [casesOf, find?_map]
      rfl
    rw [running_switch (by simp [Quiet, stops]) (by simp), seeking_caseCode hq, hf]
    cases s.cases.find? fun c => value (line c.label) = value [word "keycode"] with
    | none => simp [result]
    | some c => rfl
  · have hs : result value (.skipping 2) (caseCode (casesOf s) ++ mark '\x7d' :: mark '\x7d' :: rest) =
        result value (.skipping 2) (mark '\x7d' :: mark '\x7d' :: rest) :=
      skipping_append (not_mem_caseCode hq (by simp)) (not_mem_caseCode hq (by simp))
    simp [result, hs]

def picked (value : Values) (f : MagicFunction) : String :=
  (f.switches.findSome? (picked? value)).getD f.default.result

theorem result_switches (h : ∀ s ∈ switches, s.Legible) :
    result value .running (switches.flatMap switchCode ++ rest) =
      match switches.findSome? (picked? value) with
      | some code => some (line code)
      | none => result value .running rest := by
  induction switches with
  | nil => rfl
  | cons s switches ih =>
    rw [forall_mem_cons] at h
    rw [flatMap_cons, append_assoc, result_switchCode h.1, ih h.2, findSome?_cons]
    cases picked? value s <;> rfl

theorem call_render (h : f.Legible) : call value functionName f.render = some (line (f.picked value)) := by
  rw [call, code_render h, after_append (by simp [functionName]), running_append (by simp),
    result_switches h.switches, picked]
  cases f.switches.findSome? (picked? value) with
  | some code => rfl
  | none =>
    have ho : upTo ';' (line f.default.result ++ mark ';' :: [mark '\x7d']) =
        line f.default.result := upTo_append (h.default.quiet.not_mem (by decide))
    simp [result, ho]

theorem switchLabels_switches (h : ∀ s ∈ switches, s.Legible) :
    switchLabels (switches.flatMap switchCode ++ rest) =
      (switches.map fun s => s.cases.map fun c => line c.label) ++ switchLabels rest := by
  induction switches with
  | nil => rfl
  | cons s switches ih =>
    rw [forall_mem_cons] at h
    have hq := quiet_casesOf h.1
    have ht : s.baseLayer ≠ "switch" := h.1.plain.ne_keyword h.1.name (by simp [keywords])
    have own : labels 1 (caseCode (casesOf s) ++ mark '\x7d' ::
        mark '\x7d' :: (switches.flatMap switchCode ++ rest)) = s.cases.map fun c => line c.label := by
      rw [labels_caseCode hq, casesOf, map_map]
      rfl
    have hn : word "switch" ∉ caseCode (casesOf s) := not_mem_caseCode hq (by simp)
    have hl : switchLabels (caseCode (casesOf s) ++ mark '\x7d' :: mark '\x7d' ::
        (switches.flatMap switchCode ++ rest)) = switchLabels (mark '\x7d' :: mark '\x7d' ::
        (switches.flatMap switchCode ++ rest)) := switchLabels_append hn
    simp [switchCode, switchLabels, ht, labels, own, hl, ih h.2]

theorem switchLabels_render (h : f.Legible) :
    switchLabels (code f.render) = f.switches.map fun s => s.cases.map fun c => line c.label := by
  have hn : word "switch" ∉ line f.default.result := h.default.quiet.not_mem (by decide)
  rw [code_render h, functionName]
  simp [switchLabels, switchLabels_switches h.switches, switchLabels_append hn]

end MagicFunction

/-- What the magic key sends after a previous key: the keycode of the alternate, or the custom keycode
of its text. -/
inductive Sends (keycodes : Entries) (m : MagicMapping) (e : Field × Document) : String → Prop where
  | key {code : Document} (single : textPieces e.2 = []) (found : simpleKeycode keycodes e.2 = .ok code) :
      Sends keycodes m e code.toText
  | text {name : String} (several : textPieces e.2 ≠ [])
      (named : textKeycode m.baseLayer e.1.text = .ok name) : Sends keycodes m e name

inductive Rests (keycodes : Entries) (d : Document) : String → Prop where
  | again (asked : d = "REPEAT") : Rests keycodes d "QK_REP"
  | nothing (asked : d = "NONE") : Rests keycodes d "KC_NO"
  | key {code : Document} (notRepeat : d ≠ "REPEAT") (notNone : d ≠ "NONE")
      (found : simpleKeycode keycodes d = .ok code) : Rests keycodes d code.toText

theorem Rests.unique {code code' : String} (rests : Rests keycodes d code)
    (hr : Rests keycodes d code') : code = code' := by
  cases rests with
  | again h =>
    cases hr with
    | again => rfl
    | nothing ha => simp [h] at ha
    | key hnr _ _ => exact absurd h hnr
  | nothing h =>
    cases hr with
    | again ha => simp [h] at ha
    | nothing => rfl
    | key _ hn _ => exact absurd h hn
  | key hnr hn hf =>
    cases hr with
    | again h => exact absurd h hnr
    | nothing h => exact absurd h hn
    | key _ _ hfn => rw [Except.ok.inj (hf.symm.trans hfn)]

theorem magicDefault_rests {default : MagicDefault} (h : magicDefault keycodes d = .ok default) :
    Rests keycodes d default.result := by
  unfold magicDefault at h
  split at h
  · obtain rfl := pure_eq_ok.mp h
    exact .again rfl
  · obtain rfl := pure_eq_ok.mp h
    exact .nothing rfl
  · rename_i hnr hn
    obtain ⟨code, hf, h⟩ := bind_eq_ok.mp h
    obtain rfl := pure_eq_ok.mp h
    exact .key (fun hs => hnr hs) (fun hs => hn hs) hf

structure IsCase (keycodes : Entries) (m : MagicMapping) (e : Field × Document) (c : MagicCase) :
    Prop where
  label : ∃ key, simpleKeycode keycodes e.1.toDocument = .ok key ∧ c.label = key.toText
  result : Sends keycodes m e c.result

def TextOf (m : MagicMapping) (key : String × String) : Prop :=
  ∃ entries, m.mappings.entries = .ok entries ∧ ∃ e ∈ entries, textPieces e.2 ≠ [] ∧
    textKeycode m.baseLayer e.1.text = .ok key.1 ∧ key.2 = String.join (textPieces e.2)

theorem magicCase_eq_ok {r : MagicCase × TextKeys} (h : magicCase keycodes m.baseLayer e.1 e.2 = .ok r) :
    IsCase keycodes m e r.1 ∧ ∀ key, key ∈ r.2 ↔ textPieces e.2 ≠ [] ∧
      textKeycode m.baseLayer e.1.text = .ok key.1 ∧ key.2 = String.join (textPieces e.2) := by
  obtain ⟨key, hf, h⟩ := bind_eq_ok.mp h
  cases hp : textPieces e.2 with
  | nil =>
    simp only [hp] at h
    obtain ⟨code, hs, h⟩ := bind_eq_ok.mp h
    obtain rfl := pure_eq_ok.mp h
    exact ⟨⟨⟨key, hf, rfl⟩, .key hp hs⟩, by simp⟩
  | cons first rest =>
    simp only [hp] at h
    obtain ⟨name, hn, h⟩ := bind_eq_ok.mp h
    obtain rfl := pure_eq_ok.mp h
    exact ⟨⟨⟨key, hf, rfl⟩, .text (by simp [hp]) hn⟩, by simp [hn, Prod.ext_iff, eq_comm]⟩

structure IsSwitch (keycodes : Entries) (m : MagicMapping) (s : MagicSwitch) : Prop where
  baseLayer : s.baseLayer = m.title
  cases : ∃ entries, m.mappings.entries = .ok entries ∧
    List.Forall₂ (IsCase keycodes m) entries s.cases

theorem magicSwitch_eq_ok {r : MagicSwitch × TextKeys} (h : magicSwitch keycodes m = .ok r) :
    IsSwitch keycodes m r.1 ∧ ∀ key, key ∈ r.2 ↔ TextOf m key := by
  obtain ⟨entries, het, h⟩ := bind_eq_ok.mp h
  obtain ⟨cases, hc, h⟩ := bind_eq_ok.mp h
  obtain rfl := pure_eq_ok.mp h
  have he := (mapM_eq_ok.mp hc).imp fun _ _ one => magicCase_eq_ok one
  refine ⟨⟨rfl, entries, het, forall₂_map_right_iff.mpr (he.imp fun _ _ one => one.1)⟩, fun key => ?_⟩
  rw [flatMap_def, mem_flatten_of_forall₂ (forall₂_map_right_iff.mpr (he.imp fun _ _ one => one.2))]
  simp [TextOf, het]

def compiledMappings (magic : MagicConfig) (layers : List CompiledLayer) : List MagicMapping :=
  magic.filter fun m => layers.any fun l => l.name.same m.baseLayer

theorem magicKeys_eq_ok {magic : Option MagicConfig} {text : String} {keys : TextKeys}
    (hd : magicKeys keycodes magic layers = .ok (text, keys)) :
    magic.getD [] = [] ∧ text = "" ∧ keys = [] ∨ ∃ first rest, magic = some (first :: rest) ∧
      ∃ (switches : List (MagicSwitch × TextKeys)) (default : MagicDefault),
        magicDefault keycodes first.default = .ok default ∧
        Forall₂ (fun m s => IsSwitch keycodes m s.1 ∧ ∀ key, key ∈ s.2 ↔ TextOf m key)
          (compiledMappings (first :: rest) layers) switches ∧
        text = MagicFunction.render ⟨switches.map (·.1), default⟩ ∧
        keys = assignAll [] (switches.flatMap (·.2)) := by
  unfold magicKeys at hd
  split at hd
  · cases hd
    exact .inl ⟨rfl, rfl, rfl⟩
  · cases hd
    exact .inl ⟨rfl, rfl, rfl⟩
  · obtain ⟨_, h, hsm⟩ := map_eq_ok.mp hd
    obtain ⟨_, -, h⟩ := bind_eq_ok.mp h
    obtain ⟨switches, hs, h⟩ := bind_eq_ok.mp h
    obtain ⟨default, hdf, h⟩ := bind_eq_ok.mp h
    obtain rfl := pure_eq_ok.mp h
    obtain ⟨rfl, rfl⟩ := Prod.mk.inj hsm
    exact .inr ⟨_, _, rfl, switches, default, hdf,
      (mapM_eq_ok.mp hs).imp fun _ _ one => magicSwitch_eq_ok one, rfl, rfl⟩

theorem magicKeys_function {text : String} {keys : TextKeys}
    (h : magicKeys keycodes (some (first :: rest)) layers = .ok (text, keys)) :
    ∃ f : MagicFunction, text = f.render ∧ magicDefault keycodes first.default = .ok f.default ∧
      Forall₂ (IsSwitch keycodes) (compiledMappings (first :: rest) layers) f.switches := by
  obtain ⟨⟨⟩, -⟩ | ⟨_, _, ⟨⟩, switches, default, hd, hs, rfl, -⟩ := magicKeys_eq_ok h
  exact ⟨_, rfl, hd, forall₂_map_right_iff.mpr (hs.imp fun _ _ one => one.1)⟩

theorem isIdentifier_identifierOf (token : String) : Text.IsIdentifier (identifierOf token) := by
  unfold identifierOf
  extract_lets plain fragment
  split
  · decide
  · exact Text.isIdentifier_identifierFragment plain

theorem upper_append (a b : String) : Text.upper (a ++ b) = Text.upper a ++ Text.upper b := by
  simp [Text.upper]

theorem textKeycode_eq (hb : Text.IsIdentifier baseLayer.toText)
    (h : textKeycode baseLayer previous = .ok name) :
    ∃ rest, name = "MAGIC_" ++ rest ∧ Text.IsIdentifier rest := by
  unfold textKeycode at h
  obtain ⟨layer, ht, h⟩ := bind_eq_ok.mp h
  extract_lets family fragment fragment' at h
  obtain rfl := pure_eq_ok.mp h
  have hfm : Text.IsIdentifier family := by
    cases baseLayer with
    | text s =>
      cases ht
      exact (Text.IsIdentifier.lower hb).replace _ _ rfl (by decide)
    | _ => cases ht
  have hfr : Text.IsIdentifier fragment' := by
    simp only [fragment']
    split
    · exact Text.isIdentifier_append.mpr ⟨by decide, Text.isIdentifier_toString _⟩
    · exact isIdentifier_identifierOf previous
  refine ⟨Text.upper (family ++ "_" ++ fragment'), ?_, .upper ?_⟩
  · have hf : Text.upper "MAGIC_" = "MAGIC_" := by decide
    have hw := upper_append "MAGIC_" (family ++ "_" ++ fragment')
    rw [hf] at hw
    rw [← hw]
    refine congrArg Text.upper ?_
    simp only [toString, String.append_assoc]
  · simp only [Text.isIdentifier_append]
    exact ⟨⟨hfm, by decide⟩, hfr⟩

theorem plain_textKeycode (h : Text.IsIdentifier baseLayer.toText)
    (hd : textKeycode baseLayer previous = .ok name) : Plain name := by
  obtain ⟨rest, rfl, hi⟩ := textKeycode_eq h hd
  have hw : "MAGIC_" ++ rest = String.singleton 'M' ++ ("AGIC_" ++ rest) := by
    rw [← String.append_assoc]
    rfl
  rw [hw]
  refine plain_of_capital (by decide) ?_
  simp only [Text.isIdentifier_append]
  exact ⟨by decide, by decide, hi⟩

def TableHas (p : String → Prop) (keycodes : Entries) : Prop :=
  ∀ e ∈ keycodes, ∀ code, e.2.findD "qmk" .null = .ok code → p code.toText

theorem TableHas.plainKeycode {key : String} {code : Document} (ht : TableHas p keycodes)
    (h : plainKeycode keycodes key = .ok code) : p code.toText := by
  have entry {name : Field} {entry : Document} {message : String}
      (hf : keycodes.lookup name = some entry)
      (h : (do
        let value ← entry.findD "qmk" .null
        if value.isPresent then return value else invalid message) = .ok code) :
      p code.toText := by
    obtain ⟨value, hv, h⟩ := bind_eq_ok.mp h
    split at h
    · obtain rfl := pure_eq_ok.mp h
      exact ht _ (mem_of_lookup hf) _ hv
    · cases h
  unfold Qmk.plainKeycode at h
  split at h
  · rename_i hf
    exact entry hf h
  · split at h
    · cases h
    · obtain ⟨-, h⟩ := check_eq_ok.mp h
      split at h
      · cases h
      · rename_i hf
        exact entry hf h

theorem TableHas.simpleKeycode {code : Document} (ht : TableHas p keycodes)
    (h : simpleKeycode keycodes d = .ok code) : p code.toText := by
  unfold Qmk.simpleKeycode at h
  split at h
  · split at h
    · exact ht.plainKeycode h
    · cases h
    · exact ht.plainKeycode h
  · exact ht.plainKeycode h
  · exact ht.plainKeycode h

/-- Base layers are named like in code, keycodes are expressions, and defaults stay on their line. -/
structure LegibleMagic (keycodes : Entries) (magic : MagicConfig) : Prop where
  bases : ∀ m ∈ magic, Text.IsIdentifier m.title ∧ m.title ≠ "" ∧ m.title ∉ keywords
  table : TableHas Plain keycodes
  defaults : ∀ m ∈ magic, '\n' ∉ m.default.toText.toList

section

variable {magic : MagicConfig}

theorem plain_of_rests {code : String} (ht : TableHas Plain keycodes) (hr : Rests keycodes d code) :
    Plain code := by
  cases hr with
  | again =>
    change Plain (String.singleton 'Q' ++ "K_REP")
    exact plain_of_capital (by decide) (by decide)
  | nothing =>
    change Plain (String.singleton 'K' ++ "C_NO")
    exact plain_of_capital (by decide) (by decide)
  | key _ _ h => exact ht.simpleKeycode h

theorem plain_of_sends {code : String} (ht : TableHas Plain keycodes) (h : Text.IsIdentifier m.title)
    (hs : Sends keycodes m e code) : Plain code := by
  cases hs with
  | key _ hf => exact ht.simpleKeycode hf
  | text _ hn => exact plain_textKeycode h hn

theorem IsSwitch.legible (h : LegibleMagic keycodes magic) (hm : m ∈ magic)
    (hs : IsSwitch keycodes m s) : s.Legible := by
  obtain ⟨hi, hp, ho⟩ := h.bases m hm
  have name := isName_of_isIdentifier hp hi
  rw [← hs.baseLayer] at name ho
  refine ⟨name, name.plain ho, fun c hca => ?_⟩
  obtain ⟨entries, -, hcs⟩ := hs.cases
  obtain ⟨e, -, hc⟩ := forall₂_mem_right hcs hca
  obtain ⟨key, hf, hl⟩ := hc.label
  exact ⟨hl ▸ h.table.simpleKeycode hf, plain_of_sends h.table hi hc.result⟩

theorem legible_function (hl : LegibleMagic keycodes (first :: rest))
    (h : magicDefault keycodes first.default = .ok f.default)
    (isSwitches : Forall₂ (IsSwitch keycodes) (compiledMappings (first :: rest) layers) f.switches) :
    f.Legible := by
  refine ⟨fun s hmm => ?_, plain_of_rests hl.table (magicDefault_rests h), ?_⟩
  · obtain ⟨m, hm, hs⟩ := forall₂_mem_right isSwitches hmm
    exact hs.legible hl (mem_of_mem_filter hm)
  · unfold magicDefault at h
    split at h
    · rw [← pure_eq_ok.mp h]
      decide
    · rw [← pure_eq_ok.mp h]
      decide
    · obtain ⟨_, -, h⟩ := bind_eq_ok.mp h
      rw [← pure_eq_ok.mp h]
      exact hl.defaults first mem_cons_self

end

def atKey (value : Values) (base key : Nat) : Values :=
  fun e => if e = [word "base_layer"] then base else if e = [word "keycode"] then key else value e

theorem atKey_base (value : Values) (base key : Nat) : atKey value base key [word "base_layer"] = base :=
  if_pos rfl

theorem atKey_key (value : Values) (base key : Nat) : atKey value base key [word "keycode"] = key := by
  simp [atKey]

theorem atKey_of_plain {base : Nat} {s : String} (hp : Plain s) :
    atKey value base key (line s) = value (line s) := by
  have h (w : String) (hl : w ∈ keywords) : line s ≠ [word w] :=
    fun hs => hp.words w hl (hs ▸ mem_singleton_self _)
  rw [atKey, if_neg (h _ (by simp [keywords])), if_neg (h _ (by simp [keywords]))]

def Returns (value : Values) (text : String) (base key : Nat) (code : String) : Prop :=
  ∃ e, call (atKey value base key) MagicFunction.functionName text = some e ∧ value e = value (line code)

/-- The function computes the mapping of these base layers: its switches can be compiled, a previous
key gives its alternate, and every other key gives the layer's own default. -/
structure Computes (keycodes : Entries) (value : Values) (magic : List MagicMapping) (text : String) :
    Prop where
  labels : ∀ labels ∈ switchLabels (code text), (labels.map value).Nodup
  mapped : ∀ m ∈ magic, ∀ entries, m.mappings.entries = .ok entries → ∀ e ∈ entries,
    ∃ key sent, simpleKeycode keycodes e.1.toDocument = .ok key ∧ Sends keycodes m e sent ∧
      Returns value text (value [word m.title]) (value (line key.toText)) sent
  others : ∀ m ∈ magic, ∀ entries, m.mappings.entries = .ok entries → ∀ key,
    (∀ e ∈ entries, ∀ code, simpleKeycode keycodes e.1.toDocument = .ok code → value (line code.toText) ≠ key) →
    ∃ own, Rests keycodes m.default own ∧ Returns value text (value [word m.title]) key own

def KeysDiffer (keycodes : Entries) (value : Values) (m : MagicMapping) : Prop :=
  ∀ entries, m.mappings.entries = .ok entries → entries.Pairwise fun e e' =>
    ∀ code code', simpleKeycode keycodes e.1.toDocument = .ok code →
      simpleKeycode keycodes e'.1.toDocument = .ok code' →
      value (line code.toText) ≠ value (line code'.toText)

def SharesDefault (keycodes : Entries) (value : Values) (first m : MagicMapping) : Prop :=
  ∃ own shared, Rests keycodes m.default own ∧ Rests keycodes first.default shared ∧
    value (line own) = value (line shared)

theorem findSome?_of_nodup {key : α → Nat} {found : α → Option β} {x : α} (h : (xs.map key).Nodup)
    (hm : x ∈ xs) (ho : ∀ y ∈ xs, key y ≠ key x → found y = none) : xs.findSome? found = found x := by
  induction xs with
  | nil => cases hm
  | cons y ys ih =>
    rw [map_cons, nodup_cons] at h
    rw [forall_mem_cons] at ho
    rw [findSome?_cons]
    rcases mem_cons.mp hm with rfl | hl
    · have none : ys.findSome? found = none := by
        rw [findSome?_eq_none_iff]
        exact fun z hr => ho.2 z hr fun hs =>
          h.1 (hs ▸ mem_map_of_mem hr)
      rw [none]
      cases found x <;> rfl
    · rw [ho.1 fun hs => h.1 (hs ▸ mem_map_of_mem hl)]
      exact ih h.2 hl ho.2

theorem call_of_base (h : f.Legible) (hm : s ∈ f.switches)
    (ha : (f.switches.map fun s => value [word s.baseLayer]).Nodup) :
    call (atKey value (value [word s.baseLayer]) key) MagicFunction.functionName f.render =
      some (line (((s.cases.find? fun c => value (line c.label) = key).map (·.result)).getD
        f.default.result)) := by
  have hn (t : MagicSwitch) (hs : t ∈ f.switches) :
      atKey value (value [word s.baseLayer]) key [word t.baseLayer] = value [word t.baseLayer] := by
    have h := h.switches t hs
    rw [← h.name.reads.line_eq]
    exact atKey_of_plain h.plain
  have own : MagicFunction.picked? (atKey value (value [word s.baseLayer]) key) s =
      (s.cases.find? fun c => value (line c.label) = key).map (·.result) := by
    rw [MagicFunction.picked?, hn s hm, atKey_base, atKey_key, if_pos rfl]
    rw [← head?_filter, ← head?_filter]
    refine congrArg (fun cases => (head? cases).map _) (filter_congr fun c hc => ?_)
    rw [atKey_of_plain ((h.switches s hm).cases c hc).1]
  rw [MagicFunction.call_render h, MagicFunction.picked, findSome?_of_nodup ha hm ?_, own]
  intro t hs ho
  rw [MagicFunction.picked?, hn t hs, atKey_base]
  exact if_neg (Ne.symm ho)

theorem exists_fresh (xs : List Nat) : ∃ fresh, ∀ x ∈ xs, x ≠ fresh := by
  have hb : ∃ above, ∀ x ∈ xs, x < above := by
    induction xs with
    | nil => exact ⟨0, by simp⟩
    | cons x xs ih =>
      obtain ⟨above, h⟩ := ih
      refine ⟨max above (x + 1), forall_mem_cons.mpr ⟨by omega, fun y hm => ?_⟩⟩
      have := h y hm
      omega
  obtain ⟨above, h⟩ := hb
  exact ⟨above, fun x hm => Nat.ne_of_lt (h x hm)⟩

theorem pairwise_iff_of_forall₂ {r : α → β → Prop} {p : α → α → Prop} {q : β → β → Prop} {ys : List β}
    (hr : Forall₂ r xs ys) (hs : ∀ x y x' y', r x y → r x' y' → (p x x' ↔ q y y')) :
    xs.Pairwise p ↔ ys.Pairwise q := by
  induction hr with
  | nil => simp
  | cons h ht ih =>
    rename_i x y xs ys
    have first : (∀ x' ∈ xs, p x x') ↔ ∀ y' ∈ ys, q y y' := by
      clear ih
      induction ht with
      | nil => simp
      | cons hh _ ih => rw [forall_mem_cons, forall_mem_cons, hs _ _ _ _ h hh, ih]
    rw [pairwise_cons, pairwise_cons, first, ih]

section

theorem keysDiffer_iff (hs : IsSwitch keycodes m s) :
    KeysDiffer keycodes value m ↔ (s.cases.map fun c => value (line c.label)).Nodup := by
  obtain ⟨entries, he, h⟩ := hs.cases
  rw [Nodup, pairwise_map]
  simp only [KeysDiffer, he, Except.ok.injEq, forall_eq']
  refine pairwise_iff_of_forall₂ h fun e c e' c' hc hcs => ?_
  obtain ⟨key, hf, hl⟩ := hc.label
  obtain ⟨key', hfn, hlb⟩ := hcs.label
  simp [hf, hfn, hl, hlb]

theorem returns_iff {code : String} (hl : f.Legible)
    (h : (f.switches.map fun s => value [word s.baseLayer]).Nodup) (hm : s ∈ f.switches)
    (hs : IsSwitch keycodes m s) : Returns value f.render (value [word m.title]) key code ↔
      value (line (((s.cases.find? fun c => value (line c.label) = key).map (·.result)).getD
        f.default.result)) = value (line code) := by
  rw [Returns, ← hs.baseLayer, call_of_base hl hm h]
  simp

theorem computes_iff_of_function {magic : List MagicMapping} (legible : f.Legible)
    (isDefault : magicDefault keycodes first.default = .ok f.default)
    (isSwitches : Forall₂ (IsSwitch keycodes) magic f.switches)
    (apart : (magic.map fun m => value [word m.title]).Nodup) : Computes keycodes value magic f.render ↔
      ∀ m ∈ magic, KeysDiffer keycodes value m ∧ SharesDefault keycodes value first m := by
  have bases : (f.switches.map fun s => value [word s.baseLayer]).Nodup := by
    rw [Nodup, pairwise_map] at apart ⊢
    refine (pairwise_iff_of_forall₂ isSwitches fun m s m' s' isSwitch isSwitch' => ?_).mp apart
    rw [isSwitch.baseLayer, isSwitch'.baseLayer]
  have own (m : MagicMapping) (member : m ∈ magic) : ∃ s ∈ f.switches, IsSwitch keycodes m s :=
    forall₂_mem_right isSwitches.flip member
  have rests := magicDefault_rests isDefault
  constructor
  · intro computes m member
    obtain ⟨s, inSwitches, isSwitch⟩ := own m member
    obtain ⟨entries, isEntries, cases⟩ := isSwitch.cases
    constructor
    · rw [keysDiffer_iff isSwitch]
      have listed : (s.cases.map fun c => line c.label) ∈ switchLabels (code f.render) := by
        rw [MagicFunction.switchLabels_render legible]
        exact mem_map_of_mem inSwitches
      simpa [Function.comp_def] using computes.labels _ listed
    · -- A key that no case has brings out the default.
      obtain ⟨fresh, unused⟩ := exists_fresh (s.cases.map fun c => value (line c.label))
      rw [forall_mem_map] at unused
      have other : ∀ e ∈ entries, ∀ code, simpleKeycode keycodes e.1.toDocument = .ok code →
          value (line code.toText) ≠ fresh := by
        intro e inEntries code found
        obtain ⟨c, inCases, isCase⟩ := forall₂_mem_right cases.flip inEntries
        obtain ⟨key, isKey, isLabel⟩ := isCase.label
        cases isKey.symm.trans found
        exact isLabel ▸ unused c inCases
      obtain ⟨code, own, returned⟩ := computes.others m member entries isEntries fresh other
      rw [returns_iff legible bases inSwitches isSwitch, find?_eq_none.mpr (by simpa using unused)] at returned
      exact ⟨code, f.default.result, own, rests, returned.symm⟩
  · intro conditions
    refine ⟨fun labels listed => ?_, fun m member entries isEntries e inEntries => ?_,
      fun m member entries isEntries key unused => ?_⟩
    · rw [MagicFunction.switchLabels_render legible] at listed
      obtain ⟨s, inSwitches, rfl⟩ := mem_map.mp listed
      obtain ⟨m, member, isSwitch⟩ := forall₂_mem_right isSwitches inSwitches
      simpa [Function.comp_def] using (keysDiffer_iff isSwitch).mp (conditions m member).1
    · obtain ⟨s, inSwitches, isSwitch⟩ := own m member
      have differ := (keysDiffer_iff isSwitch).mp (conditions m member).1
      obtain ⟨entries', isEntries', cases⟩ := isSwitch.cases
      cases isEntries'.symm.trans isEntries
      obtain ⟨c, inCases, isCase⟩ := forall₂_mem_right cases.flip inEntries
      obtain ⟨key, isKey, isLabel⟩ := isCase.label
      refine ⟨key, c.result, isKey, isCase.result, ?_⟩
      rw [returns_iff legible bases inSwitches isSwitch, ← isLabel, find?_of_nodup differ inCases]
      rfl
    · obtain ⟨s, inSwitches, isSwitch⟩ := own m member
      obtain ⟨code, shared, ownRests, sharedRests, same⟩ := (conditions m member).2
      obtain ⟨entries', isEntries', cases⟩ := isSwitch.cases
      cases isEntries'.symm.trans isEntries
      have none : (s.cases.find? fun c => value (line c.label) = key) = none := by
        rw [find?_eq_none]
        intro c inCases
        obtain ⟨e, inEntries, isCase⟩ := forall₂_mem_right cases inCases
        obtain ⟨code, isKey, isLabel⟩ := isCase.label
        simpa [isLabel] using unused e inEntries code isKey
      refine ⟨code, ownRests, ?_⟩
      rw [returns_iff legible bases inSwitches isSwitch, none, same, sharedRests.unique rests]
      rfl

end

/-- The function computes the configured mapping exactly if the previous keys of each compiled base
layer are different keycodes and its default is that of the first base layer of all. -/
theorem magic_computes_iff {keycodes : Entries} {magic : MagicConfig} {layers : List CompiledLayer}
    {text : String} {keys : TextKeys} {value : Values}
    (done : magicKeys keycodes (some magic) layers = .ok (text, keys)) (legible : LegibleMagic keycodes magic)
    (apart : ((compiledMappings magic layers).map fun m => value [word m.title]).Nodup) :
    Computes keycodes value (compiledMappings magic layers) text ↔
      ∀ m ∈ compiledMappings magic layers, KeysDiffer keycodes value m ∧
        ∀ first ∈ magic.head?, SharesDefault keycodes value first m := by
  cases magic with
  | nil =>
    cases done
    have empty : code "" = [] := rfl
    refine iff_of_true ⟨?_, ?_, ?_⟩ ?_ <;> simp [compiledMappings, empty, switchLabels]
  | cons first rest =>
    obtain ⟨f, rfl, isDefault, isSwitches⟩ := magicKeys_function done
    have function := legible_function legible isDefault isSwitches
    rw [computes_iff_of_function function isDefault isSwitches apart]
    simp

def duskDay : MagicMapping where
  baseLayer := "BASE_DAY"
  timeout := .whole 0
  mappings := .record [("A", "B")]

def duskNight (default : Document) : MagicMapping where
  baseLayer := "BASE_NIGHT"
  timeout := .whole 0
  mappings := .record [("B", "A")]
  default := default

def dusk (default : Document) : MagicConfig :=
  [duskDay, duskNight default]

def duskKeycodes : Entries :=
  [("A", .record [("qmk", "KC_A")]), ("B", .record [("qmk", "KC_B")])]

def duskLayers : List CompiledLayer :=
  [⟨"BASE_DAY", []⟩, ⟨"BASE_NIGHT", []⟩]

def duskValues : Values :=
  fun e => [[word "BASE_DAY"], [word "BASE_NIGHT"], [word "KC_A"], [word "KC_B"],
    [word "KC_NO"], [word "QK_REP"]].findIdx (· = e)

theorem compiledMappings_dusk (default : Document) :
    compiledMappings (dusk default) duskLayers = dusk default := rfl

theorem legible_dusk {default : Document} (hs : '\n' ∉ default.toText.toList) :
    LegibleMagic duskKeycodes (dusk default) where
  bases := by
    have h : ∀ s ∈ ["BASE_DAY", "BASE_NIGHT"], Text.IsIdentifier s ∧ s ≠ "" ∧ s ∉ keywords := by decide
    simp only [dusk, forall_mem_cons] at h ⊢
    exact ⟨h.1, h.2.1, by simp⟩
  table := by
    have hp (c : Char)
        (hc : Text.IsIdentifier (String.singleton 'K' ++ ("C_" ++ String.singleton c))) :
        Plain (String.singleton 'K' ++ ("C_" ++ String.singleton c)) :=
      plain_of_capital (by decide) hc
    simp only [TableHas, duskKeycodes, forall_mem_cons]
    refine ⟨?_, ?_, by simp⟩
    · rintro _ ⟨⟩
      exact hp 'A' (by decide)
    · rintro _ ⟨⟩
      exact hp 'B' (by decide)
  defaults := by
    simp only [dusk, forall_mem_cons]
    exact ⟨by decide, hs, by simp⟩

/-- After other keys the night layer repeats like the day layer, although it should do nothing. -/
theorem dusk_computes :
    (∃ text keys, magicKeys duskKeycodes (some (dusk "NONE")) duskLayers = .ok (text, keys) ∧
      ¬ Computes duskKeycodes duskValues (compiledMappings (dusk "NONE") duskLayers) text) ∧
    ∃ text keys, magicKeys duskKeycodes (some (dusk "REPEAT")) duskLayers = .ok (text, keys) ∧
      Computes duskKeycodes duskValues (compiledMappings (dusk "REPEAT") duskLayers) text := by
  obtain ⟨⟨text, keys⟩, done⟩ := exists_eq_ok
    (x := magicKeys duskKeycodes (some (dusk "NONE")) duskLayers) (by decide)
  obtain ⟨⟨text', keys'⟩, done'⟩ := exists_eq_ok
    (x := magicKeys duskKeycodes (some (dusk "REPEAT")) duskLayers) (by decide)
  refine ⟨⟨text, keys, done, ?_⟩, text', keys', done', ?_⟩
  · rw [magic_computes_iff done (legible_dusk (by decide)) (by decide)]
    intro conditions
    have night : duskNight "NONE" ∈ compiledMappings (dusk "NONE") duskLayers := by
      rw [compiledMappings_dusk]
      exact List.mem_cons_of_mem _ (List.mem_singleton_self _)
    obtain ⟨own, shared, nothing, again, same⟩ := (conditions _ night).2 duskDay rfl
    rw [nothing.unique (.nothing rfl), again.unique (.again rfl)] at same
    exact absurd same (by decide)
  · rw [magic_computes_iff done' (legible_dusk (by decide)) (by decide), compiledMappings_dusk]
    have shares : ∀ m ∈ dusk "REPEAT", m.default = "REPEAT" := by simp [dusk, duskDay, duskNight]
    have single : ∀ m ∈ dusk "REPEAT", ∃ e, m.mappings.entries = .ok [e] := by
      simp [dusk, duskDay, duskNight, Document.entries]
    intro m member
    refine ⟨fun entries isEntries => ?_, fun first isFirst => ?_⟩
    · obtain ⟨e, isSingle⟩ := single m member
      cases isSingle.symm.trans isEntries
      exact List.pairwise_singleton _ _
    · have firstShares := shares first (List.mem_of_mem_head? isFirst)
      exact ⟨_, _, .again (shares m member), .again firstShares, rfl⟩

end Keymap.Qmk
