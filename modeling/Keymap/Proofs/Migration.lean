import Keymap.Proofs.LayerMacros
import Keymap.Proofs.TwoHands
import Keymap.Proofs.WellFormedKeys

namespace Keymap.Header

open List

section Printed

variable {keys : List String} {line margin : String}

variable {rows : List (List String)} {name : String}

/-- A row of keys as it is printed: an item of a list, with the keys in brackets. -/
def printedRow? (line : String) : Option (List String) :=
  let item := (Text.trim line).toList
  if "- [".toList.isPrefixOf item && item.getLast? == some ']' then
    some ((Text.split ',' (String.ofList (item.drop 3).dropLast)).map Text.trim)
  else none

def printedRows (text : String) : List (List String) :=
  (Text.lines text).filterMap printedRow?

/-- A key that is printed as a plain word. -/
structure IsCell (key : String) : Prop where
  comma : ',' ∉ key.toList
  newline : '\n' ∉ key.toList
  trimmed : Text.trim key = key

theorem split_of_lists {text : String} (hl : Lists Blank text.toList keys)
    (cells : ∀ key ∈ keys, IsCell key) : (Text.split ',' text).map Text.trim = keys := by
  rw [Text.split, map_map]
  generalize text.toList = cs at hl
  have own {before after : List Char} {key : String} (hb : Blank before) (h : Blank after)
      (hc : IsCell key) :
      (Text.splitChars (· == ',') (before ++ key.toList ++ after)).map (Text.trim ∘ String.ofList) = [key] := by
    have ha : ',' ∉ before ++ key.toList ++ after := by
      simp only [mem_append, not_or]
      exact ⟨⟨fun hm => absurd (hb ',' hm) (by decide), hc.comma⟩, fun hm => absurd (h ',' hm) (by decide)⟩
    rw [Text.splitChars_of_not_mem ha, map_singleton, Function.comp_apply, Text.trim_around hb h,
      String.ofList_toList, hc.trimmed]
  induction hl with
  | last hb h => exact own hb h (cells _ mem_cons_self)
  | more hb h _ ih =>
    obtain ⟨hf, ho⟩ := forall_mem_cons.mp cells
    rw [Text.splitChars_append_cons rfl, map_append, own hb h hf, ih ho]
    rfl

def rowLine (keys : List String) : String :=
  "- [" ++ Text.join ", " (keys.map (Text.padRight 15)) ++ "]"

theorem rowText_keys (keys : List String) : rowText (keys.map .text) = .ok (rowLine keys) := by
  have h : (keys.map Document.text).mapM (Document.padded 15) = .ok (keys.map (Text.padRight 15)) := by
    rw [mapM_eq_ok, forall₂_map_left_iff, forall₂_map_right_iff]
    exact forall₂_same.mpr fun _ _ => rfl
  rw [rowText, h]
  rfl

theorem printedRow?_indent (hb : Blank margin.toList) (line : String) :
    printedRow? (margin ++ line) = printedRow? line := by
  have hs : Text.trim (margin ++ line) = Text.trim line := by
    have h := @Text.trim_around margin.toList [] line.toList hb (by simp)
    rw [append_nil, ← String.toList_append, String.ofList_toList, String.ofList_toList] at h
    exact h
  rw [printedRow?, printedRow?, hs]

theorem getLast?_rowLine (keys : List String) : (rowLine keys).toList.getLast? = some ']' := by
  rw [rowLine, String.toList_append, getLast?_append_of_ne_nil _ (by decide)]
  rfl

theorem printedRow?_rowLine (hp : keys ≠ []) (hc : ∀ key ∈ keys, IsCell key) :
    printedRow? (rowLine keys) = some keys := by
  have ht : Text.trim (rowLine keys) = rowLine keys := by
    have h : Text.isBlank '-' = false ∧ Text.isBlank ']' = false := by decide
    exact Text.trim_of_visible (by simp [rowLine, h]) (by simp [getLast?_rowLine, h])
  have hs : "- [".toList.isPrefixOf (rowLine keys).toList := by simp [rowLine]
  have hi : String.ofList ((rowLine keys).toList.drop 3).dropLast = Text.join ", " (keys.map (Text.padRight 15)) := by
    simp [rowLine]
  simp only [printedRow?, ht, hs, getLast?_rowLine, hi, split_of_lists (lists_padded 15 hp) hc]
  rfl

theorem lines_join {ls : List String} (hp : ∀ line ∈ ls, '\n' ∉ line.toList) :
    Text.lines (String.join (ls.map (· ++ "\n"))) = ls ++ [""] := by
  induction ls with
  | nil => rfl
  | cons line ls ih =>
    obtain ⟨own, h⟩ := forall_mem_cons.mp hp
    have cut : (String.join ((line :: ls).map (· ++ "\n"))).toList =
        line.toList ++ '\n' :: (String.join (ls.map (· ++ "\n"))).toList := by
      simp
    rw [Text.lines, Text.split, cut, Text.splitChars_append_cons rfl, Text.splitChars_of_not_mem own, map_append,
      map_singleton, String.ofList_toList, ← Text.split, ← Text.lines, ih h]
    rfl

theorem single_spaces (n : Nat) : '\n' ∉ (Text.spaces n).toList := by
  intro h
  rw [Text.spaces, String.toList_ofList] at h
  exact absurd (eq_of_mem_replicate h) (by decide)

theorem single_rowLine (hp : ∀ key ∈ keys, '\n' ∉ key.toList) : '\n' ∉ (rowLine keys).toList := by
  have h : '\n' ∉ (Text.join ", " (keys.map (Text.padRight 15))).toList := by
    refine Code.single_join (by decide) fun padded hm => ?_
    obtain ⟨key, hk, rfl⟩ := mem_map.mp hm
    exact Code.single_append (hp key hk) (single_spaces _)
  rw [rowLine]
  exact Code.single_append (Code.single_append (by decide) h) (by decide)

def layerLines (name : String) (rows : List (List String)) : List String :=
  [name ++ ":", "  core:"] ++ (["# Left hand (3x5)"] ++ (rows.take 3).map rowLine ++ ["# Right hand (3x5)"] ++
    ((rows.drop 3).take 3).map rowLine ++ ["# Thumbs (3+3)"] ++ (rows.drop 6).map rowLine).map ("    " ++ ·)

theorem layerText_byRow {indent : Nat} (hn : indent < Document.tooWide) (name : String) (h : TwoHands String 5) :
    layerText (.whole indent) (.text name) (.list (h.byRow.map .text)) =
      .ok (String.join ((layerLines name h.rows).map fun line => Text.spaces indent ++ line ++ "\n")) := by
  have hk (what : String) : layerKeys what (.list (h.byRow.map .text)) = .ok (h.byRow.map .text) := by
    have hf : (h.byRow.map Document.text).length = 36 := by rw [length_map, h.length_byRow]
    rw [layerKeys, Document.length, ok_bind, if_neg (not_not.mpr hf)]
    rfl
  have hm : margin (.whole indent) = .ok (Text.spaces indent) := by
    have hsm : (indent : Int) < Document.tooWide := Int.ofNat_lt.mpr hn
    have hs : Document.isSize indent := by
      simp only [Document.isSize, Bool.and_eq_true, decide_eq_true_eq]
      rw [Document.tooWide] at hn
      omega
    rw [margin, hs, if_neg (by decide), if_neg (Int.not_le.mpr hsm)]
    rfl
  have hr : (coreRows (handByHand (h.byRow.map Document.text))).mapM rowText = .ok (h.rows.map rowLine) := by
    rw [← h.byRow_map, TwoHands.handByHand_byRow, TwoHands.coreRows_byHand, h.rows_map, mapM_eq_ok,
      forall₂_map_left_iff, forall₂_map_right_iff]
    exact forall₂_same.mpr fun row _ => rowText_keys row
  rw [layerText, hk, ok_bind, hm, ok_bind, hr]
  simp [layerLines, map_take, map_drop]
  rfl

theorem printedRow?_title (hn : Code.IsName name) : printedRow? (name ++ ":") = none := by
  have h : ∀ c ∈ (name ++ ":").toList.head?, Text.isWordChar c := by
    rw [String.toList_append, head?_append_of_ne_nil _ hn.1]
    exact fun c hf => hn.2 c (mem_of_mem_head? hf)
  have hv : Text.isBlank ':' = false := by decide
  have ht : Text.trim (name ++ ":") = name ++ ":" :=
    Text.trim_of_visible (fun c hf => Text.isBlank_of_isWordChar (h c hf)) (by simp [hv])
  have ho : "- [".toList.isPrefixOf (name ++ ":").toList = false := by
    generalize (name ++ ":").toList = cs at h
    cases cs with
    | nil => rfl
    | cons c cs =>
      have ha : c ≠ '-' := by
        rintro rfl
        exact absurd (h '-' rfl) (by decide)
      simp [isPrefixOf, ha.symm]
  simp only [printedRow?, ht, ho]
  rfl

theorem filterMap_rowLine (hp : ∀ row ∈ rows, row ≠ [])
    (h : ∀ row ∈ rows, ∀ key ∈ row, IsCell key) : (rows.map rowLine).filterMap printedRow? = rows := by
  induction rows with
  | nil => rfl
  | cons row rows ih =>
    rw [forall_mem_cons] at hp h
    rw [map_cons, filterMap_cons_some (printedRow?_rowLine hp.1 h.1), ih hp.2 h.2]

theorem filterMap_indent {margin : String} (h : Blank margin.toList) (ls : List String) :
    (ls.map (margin ++ ·)).filterMap printedRow? = ls.filterMap printedRow? := by
  induction ls with
  | nil => rfl
  | cons line ls ih => rw [map_cons, filterMap_cons, filterMap_cons, printedRow?_indent h, ih]

theorem filterMap_layerLines (hn : Code.IsName name)
    (present : ∀ row ∈ rows, row ≠ []) (hc : ∀ row ∈ rows, ∀ key ∈ row, IsCell key) :
    (layerLines name rows).filterMap printedRow? = rows := by
  have hp {some : List (List String)} (hw : some ⊆ rows) : (some.map rowLine).filterMap printedRow? = some :=
    filterMap_rowLine (fun row h => present row (hw h)) fun row h => hc row (hw h)
  have hl := hp (take_subset 3 rows)
  have hr := hp (List.Subset.trans (take_subset 3 _) (drop_subset 3 rows))
  have ht := hp (drop_subset 6 rows)
  have hcr : printedRow? "  core:" = none := by decide
  have hcm : ["# Left hand (3x5)"].filterMap printedRow? = [] ∧ ["# Right hand (3x5)"].filterMap printedRow? = [] ∧
      ["# Thumbs (3+3)"].filterMap printedRow? = [] := by decide
  have indent : Blank "    ".toList := by decide
  rw [layerLines, filterMap_append, filterMap_indent indent, filterMap_cons_none (printedRow?_title hn),
    filterMap_cons_none hcr, filterMap_nil]
  simp only [filterMap_append, hl, hr, ht, hcm, nil_append, append_nil]
  rw [append_assoc, ← drop_drop (i := 3) (j := 3), take_append_drop, take_append_drop]

theorem single_layerLines (hn : Code.IsName name)
    (hc : ∀ row ∈ rows, ∀ key ∈ row, IsCell key) : ∀ line ∈ layerLines name rows, '\n' ∉ line.toList := by
  have htt : '\n' ∉ name.toList := fun h => absurd (hn.2 _ h) (by decide)
  have hr {some : List (List String)} (hw : some ⊆ rows) : ∀ line ∈ some.map rowLine, '\n' ∉ line.toList := by
    refine forall_mem_map.mpr fun row hrw => single_rowLine fun key hk => ?_
    exact (hc row (hw hrw) key hk).newline
  have hlf := hr (take_subset 3 rows)
  have hrh := hr (List.Subset.trans (take_subset 3 _) (drop_subset 3 rows))
  have hth := hr (drop_subset 6 rows)
  rw [layerLines, forall_mem_append]
  refine ⟨by simp [htt], forall_mem_map.mpr fun line h => Code.single_append (by decide) ?_⟩
  simp only [mem_append, mem_singleton] at h
  rcases h with ((((rfl | hl) | rfl) | hrg) | rfl) | ht
  · decide
  · exact hlf line hl
  · decide
  · exact hrh line hrg
  · decide
  · exact hth line ht

theorem printedRows_layerLines (indent : Nat) (hn : Code.IsName name)
    (hp : ∀ row ∈ rows, row ≠ []) (h : ∀ row ∈ rows, ∀ key ∈ row, IsCell key) :
    printedRows (String.join ((layerLines name rows).map fun line => Text.spaces indent ++ line ++ "\n")) = rows := by
  have ht : (layerLines name rows).map (fun line => Text.spaces indent ++ line ++ "\n") =
      ((layerLines name rows).map (Text.spaces indent ++ ·)).map (· ++ "\n") := by
    simp [Function.comp_def]
  have hs : ∀ line ∈ (layerLines name rows).map (Text.spaces indent ++ ·), '\n' ∉ line.toList :=
    forall_mem_map.mpr fun line hm => Code.single_append (single_spaces indent) (single_layerLines hn h line hm)
  have hnn : [""].filterMap printedRow? = [] := by decide
  rw [printedRows, ht, lines_join hs, filterMap_append, hnn, append_nil, filterMap_indent (blank_spaces indent),
    filterMap_layerLines hn hp h]

end Printed

section Compiled

variable {c : Compiler} {board : Board} {h : TwoHands String 5} {name : String}

def coreDocument (read : String → Document) (rows : List (List String)) : Document :=
  .list (rows.map fun row => .list (row.map read))

theorem ofDocument_spelled {d : Document} {key : String} (hs : d.toText = key)
    (hn : Entry.positionDigits? key = none) : Entry.ofDocument d = .ok (.key key) := by
  subst hs
  cases d with
  | text s =>
    rw [Entry.ofDocument, Entry.ofText]
    have h : Entry.positionDigits? s = none := hn
    rw [h]
    rfl
  | _ => rfl

theorem core_of_rows {read : String → Document} {rows : List (List String)}
    (hs : ∀ row ∈ rows, ∀ key ∈ row, (read key).toText = key ∧ Entry.positionDigits? key = none) :
    KeyGrid.ofDocument (coreDocument read rows) = .ok ⟨rows.map (map .key)⟩ := by
  have hrw : (rows.map fun row => Document.list (row.map read)).mapM KeyGrid.rowOfDocument =
      .ok (rows.map (map .key)) := by
    rw [mapM_eq_ok, forall₂_map_left_iff, forall₂_map_right_iff]
    refine forall₂_same.mpr fun row hr => ?_
    rw [KeyGrid.rowOfDocument, Document.members, ok_bind, mapM_eq_ok, forall₂_map_left_iff, forall₂_map_right_iff]
    exact forall₂_same.mpr fun key h =>
      ofDocument_spelled (hs row hr key h).1 (hs row hr key h).2
  rw [KeyGrid.ofDocument, coreDocument, Document.members, ok_bind, hrw]
  rfl

/-- The keys of a core are compiled one by one. -/
theorem compile_core (hq : board.firmware.isQmk) (hs : board.layoutSize = .split36)
    (hc : ∀ key ∈ h.byRow, Qmk.checkBinding c.qmk name key = .ok ()) :
    (c.compile { name := .text name, core := some ⟨h.rows.map (map .key)⟩ } board).1 =
      (h.byRow.mapM (Qmk.value c.qmk)).map fun codes => ⟨.text name, codes⟩ := by
  have hf : (KeyGrid.flatten ⟨h.rows.map (map .key)⟩).map Entry.text = h.byRow := by
    rw [← TwoHands.rows_map, KeyGrid.flatten_hands, h.byRow_map, map_map]
    exact map_id _
  have hky : Compile.keys { name := .text name, core := some ⟨h.rows.map (map .key)⟩ } board = .ok h.byRow := by
    show Padding.pad board _ ((KeyGrid.flatten _).map Entry.text) = _
    rw [hf]
    simp only [Padding.pad, hs]
  have hch : h.byRow.forM (c.checkAt board name) = .ok () := by
    refine forM_eq_ok.mpr fun key hk => ?_
    rw [Compiler.checkAt, if_pos hq]
    exact hc key hk
  have hv : (h.byRow.zipIdx.mapM fun entry => c.valueAt board (.text name) entry.2 entry.1) =
      h.byRow.mapM (Qmk.value c.qmk) := by
    have own : (fun entry : String × Nat => c.valueAt board (.text name) entry.2 entry.1) = Qmk.value c.qmk ∘ Prod.fst := by
      funext entry
      rw [Compiler.valueAt, if_pos hq]
      rfl
    rw [own, ← mapM_map, zipIdx_map_fst]
  rw [Compiler.compile_fst, hky, ok_bind]
  show (h.byRow.forM (c.checkAt board name) >>= fun _ =>
    (h.byRow.zipIdx.mapM fun entry => c.valueAt board (.text name) entry.2 entry.1) >>= fun codes => _) = _
  rw [hch, ok_bind, hv]
  cases h.byRow.mapM (Qmk.value c.qmk) <;> rfl

end Compiled

section Restored

variable {c : Compiler} {board : Board} {name : String} {key : Key} {keys : List Key} {read : String → Document}
  {indent : Nat}

variable {v : Vocabulary}

theorem isCell_unified (hn : key.Named) : IsCell key.unified := by
  have h := spelled_unified hn
  have hv : ∀ c ∈ key.unified.toList, Text.isBlank c = false := by
    intro c hm
    rcases h c hm with hw | hc
    · exact Text.isBlank_of_isWordChar hw
    · rw [mem_singleton.mp hc]
      decide
  exact ⟨h.not_mem (by decide), h.not_mem (by decide),
    Text.trim_of_visible (fun c hf => hv c (mem_of_mem_head? hf)) fun c hl => hv c (mem_of_mem_getLast? hl)⟩

theorem positionDigits?_unified (plain : ∀ name, key = .plain name → Entry.positionDigits? name = none) :
    Entry.positionDigits? key.unified = none := by
  cases key with
  | plain name =>
    rw [Key.unified]
    split
    · decide
    · exact plain name rfl
  | _ => simp [Entry.positionDigits?, Text.startsWith, Key.unified, Vocabulary.held, Vocabulary.joined]

/-- The layer is printed as the rows of a core, and the core that is read from them is compiled to these codes. -/
def Restores (c : Compiler) (board : Board) (indent : Nat) (read : String → Document) (layer : String × List String)
    (codes : List String) : Prop :=
  ∃ text core compiled, layerText (.whole indent) (.text layer.1) (.list (layer.2.map .text)) = .ok text ∧
    (printedRows text).map length = [5, 5, 5, 5, 5, 5, 3, 3] ∧
    KeyGrid.ofDocument (coreDocument read (printedRows text)) = .ok core ∧
    (c.compile { name := .text layer.1, core := some core } board).1 = .ok compiled ∧
    compiled.keycodes = codes.map .text

/-- The aliases are those of the repository, and the table names the modifiers of hold-taps. -/
structure ForHeaders (v : Vocabulary) : Prop where
  aliases : Reading.aliases Standard.aliasFile = .ok v.aliases
  words : ∀ entry ∈ v.keycodes, ∃ name, entry.1 = .word name
  listed : ∀ m ∈ tapModifiers, ∃ entry, (.word m, entry) ∈ v.keycodes

theorem ForHeaders.checkBinding (h : ForHeaders v) (title : String) (hn : key.Named) :
    Qmk.checkBinding v title key.unified = .ok () := by
  obtain ⟨names, hmd, ha⟩ := Qmk.modifiers_ok h.words
  have hm : tapModifiers.all Qmk.isModifier := by decide
  refine checkBinding_unified h.aliases hmd (fun m ht => ?_) hn
  exact (ha m).mpr ⟨h.listed m ht, all_eq_true.mp hm m ht⟩

theorem restores_iff (usable : ForHeaders c.qmk) (isQmk : board.firmware.isQmk) (size : board.layoutSize = .split36)
    (narrow : indent < Document.tooWide)
    (isName : Code.IsName name) (full : keys.length = 36) (named : ∀ key ∈ keys, key.Named)
    (notPosition : ∀ key ∈ keys, Entry.positionDigits? key.unified = none)
    (spells : ∀ key ∈ keys, (read key.unified).toText = key.unified) (codes : List String) :
    Restores c board indent read (name, keys.map Key.unified) codes ↔
      (keys.map Key.unified).mapM (Qmk.value c.qmk) = .ok (codes.map .text) := by
  obtain ⟨h, hh⟩ := TwoHands.exists_byRow ((length_map Key.unified).trans full)
  have hky {row : List String} (hr : row ∈ h.rows) {cell : String} (hc : cell ∈ row) :
      ∃ key ∈ keys, key.unified = cell := by
    rw [← mem_map, hh]
    exact h.mem_byRow.mpr ⟨row, hr, hc⟩
  have hp : ∀ row ∈ h.rows, row ≠ [] := by
    rintro row hr rfl
    have hcn : ([] : List String).length ∈ h.rows.map length := mem_map_of_mem hr
    rw [h.lengths_rows] at hcn
    exact absurd hcn (by decide)
  have ht := layerText_byRow narrow name h
  have hrw := printedRows_layerLines indent isName hp fun row hr cell hc => by
    obtain ⟨key, hk, rfl⟩ := hky hr hc
    exact isCell_unified (named key hk)
  have hcr : KeyGrid.ofDocument (coreDocument read h.rows) = _ := core_of_rows fun row hr cell hc => by
    obtain ⟨key, hk, rfl⟩ := hky hr hc
    exact ⟨spells key hk, notPosition key hk⟩
  have hch : ∀ cell ∈ h.byRow, Qmk.checkBinding c.qmk name cell = .ok () := by
    rw [← hh]
    exact forall_mem_map.mpr fun key hk => usable.checkBinding name (named key hk)
  have hcm := compile_core isQmk size hch
  rw [hh]
  constructor
  · rintro ⟨text, core, compiled, printed, -, hb, hd, hcd⟩
    obtain rfl := Except.ok.inj (ht.symm.trans printed)
    rw [hrw] at hb
    obtain rfl := Except.ok.inj (hcr.symm.trans hb)
    rw [hcm] at hd
    obtain ⟨values, hv, rfl⟩ := map_eq_ok.mp hd
    rw [hv]
    exact congrArg _ hcd
  · intro hd
    refine ⟨_, ⟨h.rows.map (map .key)⟩, ⟨.text name, codes.map .text⟩, ht, ?_, ?_, ?_, rfl⟩
    · rw [hrw, h.lengths_rows]
    · rw [hrw]
      exact hcr
    · rw [hcm, hd]
      rfl

/-- A layer that a header can carry: 36 keys that are written back as they were. Its cells may be read as other values
than texts, as long as these are spelled the same. -/
structure Portable (v : Vocabulary) (read : String → Document) (layer : String × List Key) : Prop where
  lacks : Text.Lacks "LAYER_".toList layer.1.toList
  full : layer.2.length = 36
  kept : ∀ key ∈ layer.2, key.Kept v
  spells : ∀ key ∈ layer.2, (read key.unified).toText = key.unified

theorem Key.Kept.positionDigits? (h : key.Kept v) : Entry.positionDigits? key.unified = none := by
  refine positionDigits?_unified ?_
  rintro name rfl
  exact h.2.1

theorem migration_preserves_keymap {header : String} {macros : List (String × List Key)}
    (usable : ForHeaders c.qmk) (isQmk : board.firmware.isQmk = true) (size : board.layoutSize = .split36)
    (narrow : indent < Document.tooWide) (defines : Defines header.toList macros) (distinct : (macros.map Prod.fst).Nodup)
    (portable : ∀ layer ∈ macros, Portable c.qmk read layer) :
    Forall₂ (fun layer found => found.1 = layer.1 ∧ Restores c board indent read found (layer.2.map Key.text))
      macros (layers header) := by
  rw [defines.layers distinct fun layer isLayer => (portable layer isLayer).lacks, forall₂_map_right_iff]
  refine forall₂_same.mpr fun layer isLayer => ⟨rfl, ?_⟩
  obtain ⟨isName, named⟩ := defines.named layer isLayer
  obtain ⟨-, full, kept, spells⟩ := portable layer isLayer
  have notPosition : ∀ key ∈ layer.2, Entry.positionDigits? key.unified = none := fun key isKey =>
    (kept key isKey).positionDigits?
  refine (restores_iff usable isQmk size narrow isName full named notPosition spells _).mpr ?_
  rw [mapM_eq_ok, map_map, forall₂_map_left_iff, forall₂_map_right_iff]
  exact forall₂_same.mpr fun key isKey => value_unified usable.aliases (named key isKey) (kept key isKey)

end Restored

section Samples

variable {name : String} {keys : List Key}

variable {texts : List String}

def lineGap : List Char := [' ', '\\', '\n', ' ']

def continued : List String → List Char
  | [] => []
  | [key] => lineGap ++ key.toList ++ []
  | key :: keys => lineGap ++ key.toList ++ [] ++ ',' :: continued keys

theorem gap_lineGap : Gap lineGap :=
  .own (by decide) (.splice (.own (by decide) .nil))

theorem lists_continued (h : texts ≠ []) : Lists Gap (continued texts) texts := by
  induction texts with
  | nil => exact absurd rfl h
  | cons text texts ih =>
    cases texts with
    | nil => exact .last gap_lineGap .nil
    | cons next texts => exact .more gap_lineGap .nil (ih (cons_ne_nil _ _))

/-- A header with one layer, each key on a line of its own. -/
def headerText (name : String) (keys : List Key) : String :=
  String.ofList ("#pragma once".toList ++ '\n' :: ("#define".toList ++ ([' '] ++ ("LAYER_".toList ++
    (name.toList ++ continued (keys.map Key.text)))) ++ ['\n']))

theorem head?_continued (h : texts ≠ []) : (continued texts).head? = some ' ' := by
  match texts with
  | [text] => rfl
  | text :: next :: texts => rfl

theorem defines_headerText (hn : Code.IsName name) (present : keys ≠ []) (named : ∀ key ∈ keys, key.Named) :
    Defines (headerText name keys).toList [(name, keys)] := by
  have ht : keys.map Key.text ≠ [] := by simpa using present
  have hb : ∃ c ∈ (continued (keys.map Key.text)).head?, Text.isBlank c := ⟨' ', head?_continued ht, by decide⟩
  have hm := IsMacro.mk (by decide : Blank [' ']) (by decide) hn hb named (lists_continued ht)
  have h : Text.Lacks "#define".toList [] := by decide
  have hp : Text.Lacks "#define".toList "#pragma once".toList := by decide
  have hl : Defines ['\n'] [] := .other h (.done h)
  have hw := Defines.other hp (Defines.layer hm (.inr ⟨[], rfl⟩) hl)
  have htx : (headerText name keys).toList = _ := String.toList_ofList
  rw [htx]
  exact hw

def standardCompiler : Compiler where
  qmk := { aliases := Standard.behaviors.map Standard.ruleOf, keycodes := Standard.keycodes }

def narrowBoard : Board where
  id := "skeletyl"
  name := "Bastard Keyboards Skeletyl"
  firmware := .qmk

theorem standard_forHeaders : ForHeaders standardCompiler.qmk where
  aliases := Standard.aliases_eq_ok
  words := by
    have hw : Standard.keycodes.all (fun entry => entry.1.word?.isSome) := by decide +kernel
    rintro ⟨field, entry⟩ hm
    cases field with
    | word name => exact ⟨name, rfl⟩
    | number n => exact absurd (all_eq_true.mp hw _ hm) Bool.false_ne_true
  listed := by
    have hl : tapModifiers.all (fun m => (Standard.keycodes.lookup (.word m)).isSome) := by decide +kernel
    intro m ht
    obtain ⟨entry, h⟩ := Option.isSome_iff_exists.mp (all_eq_true.mp hl m ht)
    exact ⟨entry, mem_of_lookup h⟩

def sampleKeys : List Key :=
  (replicate 6 [.plain "A", .plain "NO", .modTap "LGUI" "S", .altGrTap "DOT", .layerTap "NAV" "SPC", .oneShot "NUM"]).flatten

theorem sample_header_restored : Forall₂ (fun layer found => found.1 = layer.1 ∧
        Restores standardCompiler narrowBoard 2 .text found (layer.2.map Key.text))
      [("BASE", sampleKeys)] (layers (headerText "BASE" sampleKeys)) := by
  have sorts : ∀ key ∈ sampleKeys, key ∈ [.plain "A", .plain "NO", .modTap "LGUI" "S", .altGrTap "DOT",
      .layerTap "NAV" "SPC", .oneShot "NUM"] := by
    intro key member
    obtain ⟨sorts, isSorts, isKey⟩ := mem_flatten.mp member
    exact eq_of_mem_replicate isSorts ▸ isKey
  have named : ∀ key ∈ sampleKeys, key.Named := by
    have all : sampleKeys.all (fun key => decide key.Named) = true := by decide
    exact fun key member => of_decide_eq_true (all_eq_true.mp all key member)
  have kept : ∀ key ∈ sampleKeys, key.Kept standardCompiler.qmk := by
    intro key member
    have sort := sorts key member
    simp only [mem_cons, not_mem_nil, or_false] at sort
    rcases sort with rfl | rfl | rfl | rfl | rfl | rfl
    · exact ⟨by decide, by decide, _, rfl, rfl⟩
    · exact ⟨by decide, by decide, _, rfl, rfl⟩
    all_goals exact ⟨rfl, by decide⟩
  refine migration_preserves_keymap standard_forHeaders rfl rfl (by decide)
    (defines_headerText (by decide) (by decide) named) (by decide) ?_
  rw [forall_mem_singleton]
  exact ⟨by decide, rfl, kept, fun _ _ => rfl⟩

def magicKey : Key :=
  .modTap "LGUI" "A_KC_MAGIC"

def magicKeys : List Key :=
  replicate 36 magicKey

/-- The name of the magic key is replaced wherever it stands in a hold-tap, also at the end of a longer name. -/
theorem magic_in_name_replaced :
    Defines (headerText "BASE" magicKeys).toList [("BASE", magicKeys)] ∧ Text.startsWith "A_KC_MAGIC" "MAGIC" = false ∧
    layers (headerText "BASE" magicKeys) = [("BASE", replicate 36 "hrm:LGUI:A_KC_MAGIC")] ∧
    magicKeys.map Key.text = replicate 36 "LGUI_T(KC_A_KC_MAGIC)" ∧
    Restores standardCompiler narrowBoard 2 .text ("BASE", replicate 36 "hrm:LGUI:A_KC_MAGIC")
      (replicate 36 "LGUI_T(KC_A_QK_AREP)") ∧
    ¬ Restores standardCompiler narrowBoard 2 .text ("BASE", replicate 36 "hrm:LGUI:A_KC_MAGIC")
      (replicate 36 "LGUI_T(KC_A_KC_MAGIC)") := by
  have each {p : Key → Prop} (one : p magicKey) : ∀ key ∈ magicKeys, p key := fun key member =>
    eq_of_mem_replicate member ▸ one
  have named : ∀ key ∈ magicKeys, key.Named := each (by decide)
  have full : magicKeys.length = 36 := length_replicate
  have defines := defines_headerText (by decide : Code.IsName "BASE") (by decide) named
  have isUnified : magicKeys.map Key.unified = replicate 36 "hrm:LGUI:A_KC_MAGIC" := by
    rw [magicKeys, map_replicate]
    rfl
  have isText : magicKeys.map Key.text = replicate 36 "LGUI_T(KC_A_KC_MAGIC)" := by
    rw [magicKeys, map_replicate]
    rfl
  have isLayers := defines.layers (by decide) (forall_mem_singleton.mpr (by decide))
  have value : Qmk.value standardCompiler.qmk "hrm:LGUI:A_KC_MAGIC" = .ok (.text "LGUI_T(KC_A_QK_AREP)") :=
    (value_held_unified Standard.aliases_eq_ok (by decide : "hrm" ∈ holdTaps) (by decide : Code.IsName "LGUI")
      (by decide : Code.IsName "A_KC_MAGIC") rfl).trans rfl
  have values (n : Nat) : (replicate n "hrm:LGUI:A_KC_MAGIC").mapM (Qmk.value standardCompiler.qmk) =
      .ok ((replicate n "LGUI_T(KC_A_QK_AREP)").map .text) := by
    induction n with
    | zero => rfl
    | succ n ih =>
      rw [replicate_succ, mapM_cons, value, ok_bind, ih]
      rfl
  have restores := restores_iff standard_forHeaders (rfl : narrowBoard.firmware.isQmk = true) rfl
    (by decide : 2 < Document.tooWide) (by decide : Code.IsName "BASE") full named (each (by decide))
    (fun key _ => (rfl : (Document.text key.unified).toText = key.unified))
  rw [isUnified] at restores
  refine ⟨defines, by decide, ?_, isText, (restores _).mpr (values 36), fun restored => ?_⟩
  · rw [isLayers, map_singleton, unifiedLayer, isUnified]
  · have same := Except.ok.inj ((values 36).symm.trans ((restores _).mp restored))
    have first : some (Document.text "LGUI_T(KC_A_QK_AREP)") = some (.text "LGUI_T(KC_A_KC_MAGIC)") := congrArg head? same
    exact absurd (Document.text.inj (Option.some.inj first)) (by decide)

end Samples

end Keymap.Header
