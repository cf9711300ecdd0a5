import Keymap.Proofs.Devicetree
import Keymap.Proofs.LayerHeader

namespace Keymap

open List

variable {x last : String} {before : List String}

namespace Text

variable {a : List Char}

def uncommentFrom (inComment : Bool) : List Char → List Char
  | [] => []
  | c :: cs =>
    if inComment then
      if c = '\n' then c :: uncommentFrom false cs else uncommentFrom true cs
    else if c = '/' ∧ cs.head? = some '/' then uncommentFrom true cs
    else c :: uncommentFrom false cs

def uncomment (text : String) : String :=
  String.ofList (uncommentFrom false text.toList)

theorem uncommentFrom_plain (hp : '/' ∉ a) (b : List Char) :
    uncommentFrom false (a ++ b) = a ++ uncommentFrom false b := by
  induction a with
  | nil => rfl
  | cons c cs ih =>
    obtain ⟨h, hr⟩ := not_or.mp (mt mem_cons.mpr hp)
    rw [cons_append, uncommentFrom, if_neg (by decide), if_neg (by simp [Ne.symm h]), ih hr, cons_append]

theorem uncommentFrom_comment (opens : ['/', '/'] <+: a) (h : '\n' ∉ a) (b : List Char) :
    uncommentFrom false (a ++ '\n' :: b) = '\n' :: uncommentFrom false b := by
  have hi : ∀ {cs : List Char}, '\n' ∉ cs →
      uncommentFrom true (cs ++ '\n' :: b) = '\n' :: uncommentFrom false b := by
    intro cs h
    induction cs with
    | nil => simp [uncommentFrom]
    | cons c cs ih =>
      obtain ⟨hoh, rest⟩ := not_or.mp (mt mem_cons.mpr h)
      rw [cons_append, uncommentFrom, if_pos rfl, if_neg (Ne.symm hoh), ih rest]
  obtain ⟨rest, rfl⟩ := opens
  have ho : '\n' ∉ '/' :: rest := fun hm => h (mem_cons_of_mem _ hm)
  exact hi ho

end Text

namespace Qmk.Enumerator

variable {names : List String} {text : String} {texts : List String} {members : List Enumerator}

variable {scope result : Scope}

abbrev Scope := List (String × Nat)

def keywords : List String :=
  ["auto", "break", "case", "char", "const", "continue", "default", "do", "double", "else", "enum",
   "extern", "float", "for", "goto", "if", "inline", "int", "long", "register", "restrict", "return",
   "short", "signed", "sizeof", "static", "struct", "switch", "typedef", "union", "unsigned", "void",
   "volatile", "while"]

def isSymbol (s : String) : Bool :=
  s.toList.all Text.isWordChar && s.toList.head?.any (fun c => !c.isDigit) && !keywords.contains s

def operand (scope : Scope) (s : String) : Option Nat :=
  if s ≠ "" ∧ s.toList.all Char.isDigit then some (s.toList.foldl (fun n c => 10 * n + (c.toNat - 48)) 0)
  else scope.lookup s

def evaluate (scope : Scope) (value : String) : Option Nat :=
  ((Text.split '+' value).mapM fun s => operand scope (Text.trim s)).map (List.foldr (· + ·) 0)

def valueOf (scope : Scope) (next : Nat) (e : Enumerator) : Option Nat :=
  e.value.elim (some next) (evaluate scope)

def declareFrom (scope : Scope) (next : Nat) : List Enumerator → Option Scope
  | [] => some scope
  | e :: rest => (valueOf scope next e).bind fun value =>
    if isSymbol e.name then declareFrom (scope ++ [(e.name, value)]) (value + 1) rest else none

def declareIn (scope : Scope) (text : String) : Option Scope :=
  if '\x7b' ∈ (Text.uncomment text).toList then
    match read (Text.uncomment text) with
    | [] => none
    | e :: rest => declareFrom scope 0 (e :: rest)
  else some scope

structure Scope.Separates (scope : Scope) (names : List String) : Prop where
  once : ∀ name ∈ names, (scope.map (·.1)).count name = 1
  apart : ∀ a ∈ scope, ∀ b ∈ scope, a.1 ∈ names → b.1 ∈ names → a.2 = b.2 → a.1 = b.1

/-- The enumerations in these texts, read one after the other, number the names well. -/
def Numbers (texts names : List String) : Prop :=
  ∃ scope : Scope, texts.foldlM declareIn [] = some scope ∧ scope.Separates names

section Symbols

variable {s : String}

theorem isWordChar_of_isSymbol (h : isSymbol s) {c : Char} (hm : c ∈ s.toList) : Text.isWordChar c := by
  simp only [isSymbol, Bool.and_eq_true, all_eq_true] at h
  exact h.1.1 c hm

theorem ne_of_isSymbol (hs : isSymbol s) {mark : Char} (h : Text.isWordChar mark = false) :
    mark ∉ s.toList := by
  intro hm
  rw [isWordChar_of_isSymbol hs hm] at h
  cases h

theorem exists_head_of_isSymbol (h : isSymbol s) : ∃ c ∈ s.toList.head?, c.isDigit = false := by
  simp only [isSymbol, Bool.and_eq_true, Option.any_eq_true, Bool.not_eq_true'] at h
  obtain ⟨c, hh, hn⟩ := h.1.2
  exact ⟨c, hh, hn⟩

theorem isWord_of_isSymbol (hs : isSymbol s) : Text.IsWord s := by
  constructor
  · rintro rfl
    exact absurd hs (by decide)
  · intro c hmm
    have h := isWordChar_of_isSymbol hs hmm
    constructor
    · rw [Text.isWordChar, Bool.or_eq_true] at h
      rcases h with ha | hu
      · exact Text.isBlank_of_isAlphanumeric ha
      · rw [beq_iff_eq.mp hu]
        decide
    · intro hm
      simp only [mem_cons, not_mem_nil, or_false] at hm
      rcases hm with rfl | rfl | rfl | rfl <;> exact absurd h (by decide)

end Symbols

theorem isSymbol_of_declareFrom {next : Nat}
    (before : ∀ a ∈ scope, isSymbol a.1) (h : declareFrom scope next members = some result) :
    ∀ a ∈ result, isSymbol a.1 := by
  induction members generalizing scope next with
  | nil =>
    obtain rfl := Option.some.inj h
    exact before
  | cons e rest ih =>
    rw [declareFrom] at h
    obtain ⟨value, -, h⟩ := Option.bind_eq_some_iff.mp h
    split at h
    · rename_i hs
      refine ih (fun a hm => ?_) h
      rcases mem_append.mp hm with he | new
      · exact before a he
      · rw [mem_singleton.mp new]
        exact hs
    · cases h

theorem isSymbol_of_declareIn (before : ∀ a ∈ scope, isSymbol a.1)
    (h : declareIn scope text = some result) : ∀ a ∈ result, isSymbol a.1 := by
  unfold declareIn at h
  split at h
  · split at h
    · cases h
    · exact isSymbol_of_declareFrom before h
  · obtain rfl := Option.some.inj h
    exact before

theorem isSymbol_of_foldlM (before : ∀ a ∈ scope, isSymbol a.1)
    (h : texts.foldlM declareIn scope = some result) : ∀ a ∈ result, isSymbol a.1 := by
  induction texts generalizing scope with
  | nil =>
    obtain rfl := Option.some.inj h
    exact before
  | cons text rest ih =>
    rw [foldlM_cons] at h
    obtain ⟨middle, hf, h⟩ := Option.bind_eq_some_iff.mp h
    exact ih (isSymbol_of_declareIn before hf) h

theorem Numbers.isSymbol (hn : Numbers texts names) : ∀ name ∈ names, isSymbol name := by
  obtain ⟨scope, h, hsp⟩ := hn
  intro name hm
  have hs : name ∈ scope.map (·.1) := count_pos_iff.mp (by rw [hsp.once name hm]; omega)
  obtain ⟨a, hi, rfl⟩ := mem_map.mp hs
  exact isSymbol_of_foldlM (by simp) h a hi

theorem declareFrom_unvalued (symbols : ∀ name ∈ names, isSymbol name) (scope : Scope) (next : Nat)
    (rest : List Enumerator) : declareFrom scope next (names.map (fun name => ⟨name, none⟩) ++ rest) =
      declareFrom (scope ++ names.zipIdx next) (next + names.length) rest := by
  induction names generalizing scope next with
  | nil => simp
  | cons name names ih =>
    obtain ⟨hs, h⟩ := forall_mem_cons.mp symbols
    rw [map_cons, cons_append, declareFrom, valueOf, Option.elim_none, Option.bind_some,
      if_pos hs, ih h, zipIdx_cons, append_assoc, length_cons]
    congr 1
    omega

theorem evaluate_next (h : isSymbol last) (fresh : last ∉ names) (others : Scope) :
    evaluate ((names ++ [last]).zipIdx ++ others) (last ++ " + 1") = some (names.length + 1) := by
  have hp : '+' ∉ last.toList ++ [' '] := by
    rw [mem_append]
    rintro (hnm | hb)
    · exact ne_of_isSymbol h (by decide) hnm
    · exact absurd hb (by decide)
  have hpc : Text.split '+' (last ++ " + 1") = [String.ofList (last.toList ++ [' ']), " 1"] := by
    have hs : (last ++ " + 1").toList = (last.toList ++ [' ']) ++ '+' :: [' ', '1'] := by simp
    rw [Text.split, hs, Text.splitChars_append_cons (by decide), Text.splitChars_of_not_mem hp]
    rfl
  have hna : Text.trim (String.ofList (last.toList ++ [' '])) = last :=
    Padded.trim ⟨(isWord_of_isSymbol h).isPiece, [], [' '], rfl, by simp,
      forall_mem_singleton.mpr (by decide)⟩
  have ho : operand ((names ++ [last]).zipIdx ++ others) (Text.trim " 1") = some 1 := rfl
  have hf : ((names ++ [last]).zipIdx ++ others).lookup last = some names.length := by
    have hms : names.zipIdx.lookup last = none := by
      rw [lookup_eq_none_iff]
      intro a hm
      simp only [bne_iff_ne]
      rintro rfl
      exact fresh (fst_mem_of_mem_zipIdx hm)
    rw [lookup_append, zipIdx_append, lookup_append, hms]
    simp
  have hv : operand ((names ++ [last]).zipIdx ++ others) last = some names.length := by
    obtain ⟨c, hh, hn⟩ := exists_head_of_isSymbol h
    have hnn : ¬ (last ≠ "" ∧ last.toList.all Char.isDigit) := by
      rintro ⟨-, hd⟩
      rw [all_eq_true.mp hd c (mem_of_mem_head? hh)] at hn
      cases hn
    rw [operand, if_neg hnn, hf]
  rw [evaluate, hpc, mapM_cons, mapM_cons, mapM_nil, hna, hv, ho]
  rfl

theorem declareIn_of_written {before inside after : List Char} (hw : WrittenAll members inside)
    (hc : Text.uncommentFrom false text.toList = before ++ '\x7b' :: inside ++ '\x7d' :: after)
    (hu : '\x7b' ∉ before) (scope : Scope) :
    declareIn scope text = if members = [] then none else declareFrom scope 0 members := by
  have h : (Text.uncomment text).toList = before ++ '\x7b' :: inside ++ '\x7d' :: after := by
    rw [Text.uncomment, String.toList_ofList, hc]
  have ho : '\x7b' ∈ (Text.uncomment text).toList := by simp [h]
  rw [declareIn, if_pos ho, hw.read_eq h hu]
  cases members with
  | nil => rfl
  | cons e rest => rw [if_neg (cons_ne_nil e rest)]

theorem declareIn_header {header : String} (symbols : ∀ name ∈ names, isSymbol name)
    (isHeader : Generate.layersHeader (names.map .text) = .ok header) :
    declareIn [] header = if names = [] then none else some names.zipIdx := by
  have hw : ∀ name ∈ names, Text.IsWord name := fun name h => isWord_of_isSymbol (symbols name h)
  let members := (Text.join ",\n    " names).toList
  have isHeader : header.toList = "// AUTO-GENERATED - DO NOT EDIT".toList ++ '\n' ::
      ("// Generated from config/keymap.yaml by scripts/generate.py".toList ++ '\n' ::
      ("\n#pragma once\n\n".toList ++ ("// Layer definitions".toList ++ '\n' ::
      ("// NOTE: Order must match config/keymap.yaml".toList ++ '\n' ::
      (("enum layers \x7b\n    ".toList ++ members) ++ "\n\x7d;\n".toList))))) := by
    have hnw : "\n".toList = ['\n'] := rfl
    have hpr : "\n#pragma once\n\n".toList = '\n' :: ("#pragma once".toList ++ ['\n', '\n']) := rfl
    have ho : "enum layers \x7b\n    ".toList = "enum layers ".toList ++ '\x7b' :: "\n    ".toList := rfl
    have hc : "\n\x7d;\n".toList = '\n' :: '\x7d' :: ";\n".toList := rfl
    simp only [Generate.layersHeader_chars isHeader, Generate.headerOpening, Text.unlines,
      String.intercalate_cons_cons, String.intercalate_singleton, String.toList_append,
      String.toList_empty, hnw, hpr, ho, hc, members, append_assoc, cons_append, nil_append]
  have hp : '/' ∉ "enum layers \x7b\n    ".toList ++ members := by
    rw [mem_append, not_or]
    exact ⟨by decide, Devicetree.lacks_join (by decide) fun name h =>
      ne_of_isSymbol (symbols name h) (by decide)⟩
  have hcd : Text.uncommentFrom false header.toList = "\n\n\n#pragma once\n\n\n\nenum layers ".toList ++
      '\x7b' :: ("\n    ".toList ++ members ++ ['\n']) ++ '\x7d' :: ";\n".toList := by
    have he : Text.uncommentFrom false "\n\x7d;\n".toList = "\n\x7d;\n".toList := by decide
    rw [isHeader, Text.uncommentFrom_comment (by decide) (by decide),
      Text.uncommentFrom_comment (by decide) (by decide), Text.uncommentFrom_plain (by decide),
      Text.uncommentFrom_comment (by decide) (by decide),
      Text.uncommentFrom_comment (by decide) (by decide), Text.uncommentFrom_plain hp, he]
    simp
  rw [declareIn_of_written (writtenAll_join hw) hcd (by decide)]
  cases names with
  | nil => rfl
  | cons name rest =>
    have hn := declareFrom_unvalued symbols [] 0 []
    rw [append_nil, nil_append] at hn
    rw [if_neg (by simp), if_neg (by simp), hn]
    rfl

theorem extraEnumerators_concat (before : List String) (x last : String) :
    extraEnumerators (before ++ [x]) last =
      before.map (fun name => ⟨name, none⟩) ++ [⟨x, some (last ++ " + 1")⟩] := by
  simp [extraEnumerators, toString]

theorem writtenAll_concat {value : String} {front : List Char}
    (hw : ∀ name ∈ before ++ [x], Text.IsWord name) (hv : Text.IsPiece value)
    (hb : ∀ c ∈ front, Text.isBlank c) : WrittenAll (before.map (fun name => ⟨name, none⟩) ++ [⟨x, some value⟩])
      (front ++ (Text.join ", " (before ++ [x ++ " = " ++ value])).toList ++ "  \n".toList) := by
  induction before generalizing front with
  | nil =>
    have h : Padded x (front ++ x.toList ++ [' ']) :=
      ⟨(hw x (by simp)).isPiece, _, _, rfl, hb, all_eq_true.mp (by decide)⟩
    have hs : Padded value ([' '] ++ value.toList ++ "  \n".toList) :=
      ⟨hv, _, _, rfl, all_eq_true.mp (by decide), all_eq_true.mp (by decide)⟩
    have hwt := Written.valued h hs
    simpa [Text.join] using WrittenAll.last hwt
  | cons name rest ih =>
    obtain ⟨hwr, ho⟩ := forall_mem_cons.mp hw
    have h : Padded name (front ++ name.toList ++ []) := ⟨hwr.isPiece, _, _, rfl, hb, by simp⟩
    have hsp : ∀ c ∈ [' '], Text.isBlank c := all_eq_true.mp (by decide)
    have hl := ih ho hsp
    have hbt := WrittenAll.cons (.plain h) hl
    cases rest with
    | nil => simpa [Text.join, String.intercalate_cons_cons] using hbt
    | cons next rest => simpa [Text.join, String.intercalate_cons_cons] using hbt

theorem isPiece_sum (hs : isSymbol last) : Text.IsPiece (last ++ " + 1") := by
  have hw := (isWord_of_isSymbol hs).isPiece
  have hmr : ∀ c ∈ " + 1".toList, c ∉ [',', '=', '\x7b', '\x7d'] := by simp
  obtain ⟨first, hh, -⟩ := exists_head_of_isSymbol hs
  constructor
  · simp
  · intro c h
    rw [String.toList_append, head?_append, Option.mem_def.mp hh, Option.some_or] at h
    obtain rfl := Option.some.inj h
    exact hw.first first hh
  · intro c hl
    have ho : (last ++ " + 1").toList.getLast? = some '1' := by simp
    rw [ho] at hl
    obtain rfl := Option.some.inj hl
    decide
  · intro c hm
    rw [String.toList_append] at hm
    rcases mem_append.mp hm with hn | hsm
    · exact hw.plain c hn
    · exact hmr c hsm

end Qmk.Enumerator

open Qmk.Enumerator

namespace Qmk

variable {names : List String} {layers : List CompiledLayer} {board : Board} {block : String}
  {extras : List String}

def lastName (layers : List CompiledLayer) : String :=
  (layers.getLast?.map (·.name.toText)).getD "MEDIA"

theorem extraLayers_chars (isExtras : extraLayerNames board = .ok (before ++ [x]))
    (h : extraLayers board layers = .ok block) :
    block.toList = '\n' :: ("// Board-specific layers (extend standard enum from dario.h)".toList ++ '\n' ::
      ("enum \x7b\n    ".toList ++
        (Text.join ", " (before ++ [x ++ " = " ++ (lastName layers ++ " + 1")])).toList ++ "  ".toList ++
        ("// Continue from last standard layer".toList ++ '\n' :: "\x7d;\n".toList))) := by
  have hp : (before ++ [x]).isEmpty = false := by simp
  simp only [extraLayers, isExtras, ok_bind, hp, Bool.false_eq_true, if_false] at h
  have isBlock := pure_eq_ok.mp h
  rw [← lastName, extraEnumerators_concat] at isBlock
  rw [← isBlock]
  simp [Text.unlines, String.intercalate_cons_cons, map_map, Function.comp_def, toString]

theorem lastName_eq (isNames : layers.map (·.name) = (names ++ [last]).map .text) : lastName layers = last := by
  have h := congrArg getLast? isNames
  simp only [getLast?_map, getLast?_append, getLast?_singleton, Option.some_or,
    Option.map_some, Option.map_eq_some_iff] at h
  obtain ⟨layer, hl, hn⟩ := h
  rw [lastName, hl, Option.map_some, Option.getD_some, hn]
  rfl

theorem declareIn_extraLayers (isNames : layers.map (·.name) = (names ++ [last]).map .text)
    (hf : last ∉ names) (h : isSymbol last) (symbols : ∀ name ∈ before ++ [x], isSymbol name)
    (isExtras : extraLayerNames board = .ok (before ++ [x])) (hd : extraLayers board layers = .ok block) :
    declareIn (names ++ [last]).zipIdx block =
      some ((names ++ [last]).zipIdx ++ (before.zipIdx ++ [(x, names.length + 1)])) := by
  obtain ⟨hb, isX⟩ := forall_mem_append.mp symbols
  have hw : ∀ name ∈ before ++ [x], Text.IsWord name :=
    fun name hm => isWord_of_isSymbol (symbols name hm)
  let members := (Text.join ", " (before ++ [x ++ " = " ++ (last ++ " + 1")])).toList
  have isBlock := extraLayers_chars isExtras hd
  rw [lastName_eq isNames] at isBlock
  have hsl : ∀ piece ∈ before ++ [x ++ " = " ++ (last ++ " + 1")], Devicetree.Lacks '/' piece := by
    intro piece hm
    rcases mem_append.mp hm with hn | hs
    · exact ne_of_isSymbol (hb piece hn) (by decide)
    · rw [mem_singleton.mp hs]
      simp only [Devicetree.lacks_append]
      exact ⟨⟨ne_of_isSymbol (isX x (mem_singleton_self x)) (by decide), by decide⟩,
        ne_of_isSymbol h (by decide), by decide⟩
  have hp : '/' ∉ "enum \x7b\n    ".toList ++ members ++ "  ".toList := by
    simp only [mem_append, not_or]
    exact ⟨⟨by decide, Devicetree.lacks_join (by decide) hsl⟩, by decide⟩
  have hc : Text.uncommentFrom false block.toList = "\n\nenum ".toList ++
      '\x7b' :: ("\n    ".toList ++ members ++ "  \n".toList) ++ '\x7d' :: ";\n".toList := by
    have ho := Text.uncommentFrom_plain (by decide : '/' ∉ ['\n'])
    have he : Text.uncommentFrom false "\x7d;\n".toList = "\x7d;\n".toList := by decide
    rw [isBlock, ← singleton_append, ho, Text.uncommentFrom_comment (by decide) (by decide),
      Text.uncommentFrom_plain hp, Text.uncommentFrom_comment (by decide) (by decide), he]
    simp [members]
  have hwr := writtenAll_concat hw (isPiece_sum h)
    (all_eq_true.mp (by decide) : ∀ c ∈ "\n    ".toList, Text.isBlank c)
  rw [declareIn_of_written hwr hc (by decide), if_neg (by simp),
    declareFrom_unvalued hb, declareFrom, valueOf, Option.elim_some, evaluate_next h hf,
    Option.bind_some, if_pos (isX x (mem_singleton_self x)), declareFrom, append_assoc]

def declared (names extras : List String) : Scope :=
  names.zipIdx ++ (extras.dropLast.zipIdx ++ (extras.getLast?.map fun x => (x, names.length)).toList)

theorem map_fst_declared (names extras : List String) : (declared names extras).map (·.1) = names ++ extras := by
  rcases eq_nil_or_concat' extras with rfl | ⟨before, x, rfl⟩
  · simp [declared, zipIdx_map_fst]
  · simp [declared, zipIdx_map_fst]

theorem declared_of_short (h : extras.length ≤ 1) : declared names extras = (names ++ extras).zipIdx := by
  match extras, h with
  | [], _ => simp [declared]
  | [x], _ => simp [declared, zipIdx_append]

theorem declared_separates_iff (distinct : names.Nodup) (hp : names ≠ []) :
    (declared names extras).Separates (names ++ extras) ↔ extras = [] ∨ ∃ x, extras = [x] ∧ x ∉ names := by
  constructor
  · rintro ⟨ho, ha⟩
    have h : (names ++ extras).Nodup := by
      rw [map_fst_declared] at ho
      exact nodup_iff_count_eq_one.mpr ho
    obtain ⟨-, -, hoh⟩ := nodup_append.mp h
    match extras with
    | [] => exact .inl rfl
    | [x] => exact .inr ⟨x, rfl, fun hm => hoh x hm x (mem_singleton_self x) rfl⟩
    | first :: next :: rest =>
      -- The first of several is zero, like the first of all layers.
      obtain ⟨zero, later, rfl⟩ := exists_cons_of_ne_nil hp
      have hs : zero = first := ha (zero, 0) (by simp [declared]) (first, 0) (by simp [declared])
        (by simp) (by simp) rfl
      exact absurd hs (hoh zero (by simp) first (by simp))
  · intro own
    have hsh : extras.length ≤ 1 := by
      rcases own with rfl | ⟨x, rfl, -⟩ <;> simp
    have h : (names ++ extras).Nodup := by
      rcases own with rfl | ⟨x, rfl, hf⟩
      · simpa using distinct
      · exact distinct.append (nodup_singleton x) (by simpa using hf)
    constructor
    · intro name hm
      rw [map_fst_declared]
      exact count_eq_one_of_mem h hm
    · intro a hi b hin _ _ hs
      rw [declared_of_short hsh, mem_zipIdx_iff_getElem?] at hi hin
      rw [hs, hin] at hi
      exact (Option.some.inj hi).symm

section Both

variable {header : String} (isNames : layers.map (·.name) = names.map .text)
  (distinct : names.Nodup) (isHeader : Generate.layersHeader (names.map .text) = .ok header)
  (isExtras : extraLayerNames board = .ok extras) (isBlock : extraLayers board layers = .ok block)
  (symbols : ∀ name ∈ names ++ extras, isSymbol name = true)

include isNames distinct isHeader isExtras isBlock symbols

theorem declareIn_both : [header, block].foldlM declareIn [] =
    if names = [] then none else some (declared names extras) := by
  obtain ⟨h, ha⟩ := forall_mem_append.mp symbols
  have ho : [header, block].foldlM declareIn [] =
      (declareIn [] header).bind fun scope => declareIn scope block := by
    simp [foldlM_cons]
  rw [ho, declareIn_header h isHeader]
  rcases eq_nil_or_concat' names with rfl | ⟨init, last, rfl⟩
  · rfl
  have hp : init ++ [last] ≠ [] := by simp
  rw [if_neg hp, if_neg hp, Option.bind_some]
  rcases eq_nil_or_concat' extras with rfl | ⟨before, x, rfl⟩
  · have none : block = "" := by
      rw [extraLayers, isExtras] at isBlock
      exact (Except.ok.inj isBlock).symm
    subst none
    simp [declareIn, Text.uncomment, Text.uncommentFrom, declared]
  · have hf : last ∉ init := fun hm =>
      (nodup_append.mp distinct).2.2 last hm last (mem_singleton_self last) rfl
    rw [declareIn_extraLayers isNames hf (h last (by simp)) ha isExtras isBlock]
    simp [declared]

end Both

/-- The numbers of the layers are well defined exactly if there are layers, all names are symbols, and
the board has at most one layer of its own, which is none of the others. -/
theorem layer_numbers_iff {settings : Settings} {s : Source} {text : String} {names : List String}
    (done : keymapFile settings s = .ok text) (isNames : s.layers.map (·.name) = names.map .text)
    (distinct : names.Nodup) : ∃ extras block header before after, extraLayerNames s.board = .ok extras ∧
      extraLayers s.board s.layers = .ok block ∧ text = before ++ block ++ after ∧
      Generate.layersHeader (s.layers.map (·.name)) = .ok header ∧ (Numbers [header, block] (names ++ extras) ↔
        (∀ name ∈ names ++ extras, isSymbol name = true) ∧ names ≠ [] ∧
          (extras = [] ∨ ∃ x, extras = [x] ∧ x ∉ names)) := by
  obtain ⟨parts, rfl⟩ := keymapFile_parts done
  obtain ⟨before, after, isText⟩ := parts.extra_infix
  obtain ⟨extras, isExtras, -⟩ := bind_eq_ok.mp parts.isExtra
  obtain ⟨header, isHeader⟩ := Generate.layersHeader_text names
  refine ⟨extras, parts.extra, header, before, after, isExtras, parts.isExtra, isText, isNames ▸ isHeader, ?_⟩
  constructor
  · intro numbers
    have symbols := numbers.isSymbol
    obtain ⟨scope, done, separated⟩ := numbers
    rw [declareIn_both isNames distinct isHeader isExtras parts.isExtra symbols] at done
    split at done
    · cases done
    · rename_i present
      obtain rfl := Option.some.inj done
      exact ⟨symbols, present, (declared_separates_iff distinct present).mp separated⟩
  · rintro ⟨symbols, present, own⟩
    refine ⟨declared names extras, ?_, (declared_separates_iff distinct present).mpr own⟩
    rw [declareIn_both isNames distinct isHeader isExtras parts.isExtra symbols, if_neg present]

def gameSource : Source where
  board := { id := "lulu", name := "Lulu", firmware := .qmk, extraLayers := .list ["GAME"] }
  layers := [⟨"BASE_NIGHT", List.replicate 36 "KC_A"⟩, ⟨"GAME", List.replicate 36 "KC_B"⟩]

/-- The layer is declared twice, so the header and the keymap do not go together. -/
theorem game_layer_redeclared : ∃ text block header before after,
    keymapFile {} gameSource = .ok text ∧ text = before ++ block ++ after ∧
      Generate.layersHeader ["BASE_NIGHT", "GAME"] = .ok header ∧
      extraLayers gameSource.board gameSource.layers = .ok block ∧
      ¬ Numbers [header, block] ["BASE_NIGHT", "GAME", "GAME"] := by
  obtain ⟨text, done⟩ : ∃ text, keymapFile {} gameSource = .ok text := exists_eq_ok (by decide)
  have isNames : gameSource.layers.map (·.name) = ["BASE_NIGHT", "GAME"].map .text := rfl
  obtain ⟨extras, block, header, before, after, isExtras, isBlock, isText, isHeader, numbers⟩ :=
    layer_numbers_iff done isNames (by decide)
  have isOwn : extraLayerNames gameSource.board = .ok ["GAME"] := eq_ok_of_toOption (by decide)
  obtain rfl := Except.ok.inj (isOwn.symm.trans isExtras)
  refine ⟨text, block, header, before, after, done, isText, isHeader, isBlock, fun numbered => ?_⟩
  obtain ⟨-, -, none | ⟨x, isSingle, fresh⟩⟩ := numbers.mp numbered
  · cases none
  · obtain rfl := List.singleton_inj.mp isSingle
    exact fresh (by decide)

end Qmk

end Keymap
