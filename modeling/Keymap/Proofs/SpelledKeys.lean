import Keymap.Proofs.Aliases
import Keymap.Proofs.MagicFamilies
import Keymap.Standard

namespace Keymap

open List

variable {said param key : String}

namespace Text

theorem contains_iff {s needle : String} : contains s needle ↔ needle.toList <:+: s.toList := by
  unfold contains
  generalize needle.toList = sub
  induction s.toList with
  | nil =>
    rw [findSplit]
    cases sub <;> simp
  | cons c cs ih =>
    rw [infix_cons_iff, ← ih, findSplit]
    split
    · rename_i hh
      have starts := isPrefixOf_iff_prefix.mp hh
      simp [starts]
    · rename_i h
      simp [← isPrefixOf_iff_prefix, h]

section Infixes

variable {sub before after : List Char} {sep : Char}

theorem prefix_append_cons (h : sep ∉ sub) : sub <+: before ++ sep :: after ↔ sub <+: before := by
  induction before generalizing sub with
  | nil =>
    cases sub with
    | nil => simp
    | cons s sub =>
      have ho : s ≠ sep := fun hs => h (by simp [hs])
      simp [ho]
  | cons b before ih =>
    cases sub with
    | nil => simp
    | cons s sub =>
      rw [cons_append, cons_prefix_cons, cons_prefix_cons, ih fun hi => h (mem_cons_of_mem s hi)]

theorem infix_append_cons (h : sep ∉ sub) :
    sub <:+: before ++ sep :: after ↔ sub <:+: before ∨ sub <:+: after := by
  induction before with
  | nil =>
    have first : sub <+: [] ++ sep :: after ↔ sub <+: [] := prefix_append_cons h
    rw [nil_append, prefix_nil] at first
    rw [nil_append, infix_cons_iff, infix_nil, first]
  | cons b before ih =>
    rw [cons_append, infix_cons_iff, infix_cons_iff, ih, ← cons_append, prefix_append_cons h, or_assoc]

def clears (sub : List Char) : List Char → Bool
  | [] => true
  | c :: cs => !sub.isPrefixOf (c :: cs) && !(c :: cs).isPrefixOf sub && clears sub cs

theorem infix_append_of_clears (h : clears sub before) : sub <:+: before ++ after ↔ sub <:+: after := by
  induction before with
  | nil => rw [nil_append]
  | cons b before ih =>
    simp only [clears, Bool.and_eq_true, Bool.not_eq_true', ← Bool.not_eq_true, isPrefixOf_iff_prefix] at h
    obtain ⟨⟨hni, hn⟩, hl⟩ := h
    have he : ¬ sub <+: b :: (before ++ after) := by
      intro hh
      rcases prefix_or_prefix_of_prefix hh (prefix_append (b :: before) after) with
        hi | ha
      · exact hni hi
      · exact hn ha
    rw [cons_append, infix_cons_iff, ih hl, or_iff_right he]

end Infixes

def marked (marks : List String) (s : String) : Bool :=
  marks.any (contains s)

section Marks

variable {marks : List String} {s : String}

theorem marked_iff : marked marks s ↔ ∃ mark ∈ marks, mark.toList <:+: s.toList := by
  simp only [marked, any_eq_true, contains_iff]

theorem marked_append_marks {others : List String} (h : marked (marks ++ others) s = false) :
    marked marks s = false ∧ marked others s = false := by
  rw [marked, any_append, Bool.or_eq_false_iff] at h
  exact h

theorem marked_drop {n : Nat} (hp : marked marks s = false) : marked marks (drop n s) = false := by
  rw [← Bool.not_eq_true, marked_iff] at hp ⊢
  rintro ⟨mark, hm, h⟩
  rw [drop, String.toList_ofList] at h
  exact hp ⟨mark, hm, h.trans (drop_suffix n _).isInfix⟩

theorem marked_of_lacks (c : Char) (h : ∀ mark ∈ marks, c ∈ mark.toList) (hl : c ∉ s.toList) :
    marked marks s = false := by
  rw [← Bool.not_eq_true, marked_iff]
  rintro ⟨mark, hm, hi⟩
  exact hl (hi.subset (h mark hm))

theorem marked_of_start {mark : String} (h : mark ∈ marks) (rest : String) : marked marks (mark ++ rest) := by
  refine marked_iff.mpr ⟨mark, h, ?_⟩
  rw [String.toList_append]
  exact (prefix_append _ _).isInfix

theorem marked_append_of_clears {start : String} (h : ∀ mark ∈ marks, clears mark.toList start.toList) :
    marked marks (start ++ s) = marked marks s := by
  rw [Bool.eq_iff_iff, marked_iff, marked_iff, String.toList_append]
  exact exists_congr fun mark => and_congr_right fun hm => infix_append_of_clears (h mark hm)

theorem marked_join (ha : ∀ mark ∈ marks, ' ' ∉ mark.toList) (word : String) (words : List String) :
    marked marks (join " " (word :: words)) = (word :: words).any (marked marks) := by
  induction words generalizing word with
  | nil => simp [join]
  | cons next words ih =>
    rw [any_cons, ← ih next, Bool.eq_iff_iff, Bool.or_eq_true, marked_iff, marked_iff, marked_iff,
      join, join, String.intercalate_cons_cons, String.toList_append, String.toList_append, append_assoc]
    constructor
    · rintro ⟨mark, h, hi⟩
      refine ((infix_append_cons (ha mark h)).mp hi).imp ?_ ?_
      all_goals exact fun hh => ⟨mark, h, hh⟩
    · rintro (⟨mark, h, hi⟩ | ⟨mark, h, hi⟩)
      · exact ⟨mark, h, (infix_append_cons (ha mark h)).mpr (.inl hi)⟩
      · exact ⟨mark, h, (infix_append_cons (ha mark h)).mpr (.inr hi)⟩

end Marks

theorem not_mem_lower_capital (s : String) : 'F' ∉ (lower s).toList := by
  have hs : ∀ c, 'F' ∉ lowerOf c := by
    intro c
    rw [lowerOf]
    split
    · rename_i hsm
      have all : ∀ n < 128, (Char.ofNat n).toLower ≠ 'F' := by decide
      have h := all c.toNat hsm
      rw [Char.ofNat_toNat] at h
      simpa using h.symm
    · rename_i hl
      have ho : c ≠ 'F' := by
        rintro rfl
        exact hl (by decide)
      exact not_mem_recase ho (by decide) (by decide +kernel) (by decide +kernel)
  have all : ∀ before cs, 'F' ∉ lowerChars before cs := by
    intro before cs
    induction cs generalizing before with
    | nil => exact not_mem_nil
    | cons c cs ih =>
      rw [lowerChars, mem_append, not_or, lowerWithin]
      refine ⟨?_, ih _⟩
      split
      · split <;> decide
      · exact hs c
  rw [lower, String.toList_ofList]
  exact all [] _

end Text

namespace Template

theorem expand_written (args : List (String × Document)) {start : List Char}
    {fields : List (List Char × List Char)} (h : isWritten start fields) :
    expand (String.ofList (written start fields)) args = (filled args start fields).map String.ofList := by
  rw [expand, String.toList_ofList, expandFrom_written h]
  rw [String.length_ofList]
  omega

end Template

namespace Alias

variable {rule : Alias} {d : Document} {first second : String} {read : Document → String → Result Document}

theorem argumentsFor_one (h : rule.params = .list [.text param]) (hr : read (.text param) said = .ok d) :
    rule.argumentsFor [said] read = .ok [(.text param, d)] := by
  rw [argumentsFor, h]
  change (read (.text param) said >>= fun d => Document.put (.text param) d []) >>= pure = _
  rw [hr]
  rfl

theorem argumentsFor_two {x y : String} {e : Document}
    (isParams : rule.params = .list [.text first, .text second]) (different : first ≠ second)
    (isFirst : read (.text first) x = .ok d) (isSecond : read (.text second) y = .ok e) :
    rule.argumentsFor [x, y] read = .ok [(.text first, d), (.text second, e)] := by
  rw [argumentsFor, isParams]
  change (do
    let args ← read (.text first) x >>= fun d => Document.put (.text first) d []
    (read (.text second) y >>= fun e => Document.put (.text second) e args) >>= pure) = _
  rw [isFirst, isSecond]
  change Document.put (.text second) e [(.text first, d)] >>= pure = _
  have h : (Document.text first).same (.text second) = false := by
    rw [← Bool.not_eq_true]
    exact fun hsm => different (Document.text.inj (Document.eq_text_of_same hsm))
  simp [Document.put, h, Document.asField, ok_bind, ok_pure]

theorem toZmk_one (start param said : String) (supported : rule.supports "zmk" = .ok true)
    (hp : rule.zmkPattern = .text (String.ofList (Template.written start.toList [(param.toList, [])])))
    (plain : Template.isWritten start.toList [(param.toList, [])]) (h : param ≠ "self") :
    rule.toZmk [(.text param, .text said)] = .ok (start ++ said) := by
  have hn : namedArguments "zmk" [(.text param, .text said)] = .ok [(param, .text said)] := by
    simp [namedArguments, lookup_cons, lookup_nil, beq_false_of_ne h.symm, ok_bind, ok_pure]
  rw [toZmk, hn, ok_bind, supported, ok_bind, if_pos rfl, expand, hp, Document.word, ok_bind,
    Template.expand_written _ plain]
  simp [Template.filled, Except.map, Document.toText]

theorem namedArguments_two (firmware : String) (d e : Document) (h : first ≠ "self" ∧ second ≠ "self") :
    namedArguments firmware [(.text first, d), (.text second, e)] = .ok [(first, d), (second, e)] := by
  simp [namedArguments, lookup_cons, lookup_nil, beq_false_of_ne h.1.symm, beq_false_of_ne h.2.symm,
    ok_bind, ok_pure]

theorem expand_two {pattern : Document} (start first middle second stop x y : String)
    (hp : pattern = .text (String.ofList (Template.written start.toList
      [(first.toList, middle.toList), (second.toList, stop.toList)])))
    (plain : Template.isWritten start.toList [(first.toList, middle.toList), (second.toList, stop.toList)])
    (h : first ≠ second) :
    expand pattern [(first, .text x), (second, .text y)] = .ok (start ++ x ++ middle ++ y ++ stop) := by
  rw [expand, hp, Document.word, ok_bind, Template.expand_written _ plain]
  simp [Template.filled, lookup_cons, Except.map, Document.toText, beq_false_of_ne h.symm, ← String.toList_inj]

theorem toZmk_two (start first second x y : String) (supported : rule.supports "zmk" = .ok true)
    (hp : rule.zmkPattern = .text (String.ofList (Template.written start.toList
      [(first.toList, " ".toList), (second.toList, "".toList)])))
    (plain : Template.isWritten start.toList [(first.toList, " ".toList), (second.toList, "".toList)])
    (hf : first ≠ "self" ∧ second ≠ "self") (h : first ≠ second) :
    rule.toZmk [(.text first, .text x), (.text second, .text y)] = .ok (start ++ x ++ " " ++ y) := by
  rw [toZmk, namedArguments_two "zmk" _ _ hf, ok_bind, supported, ok_bind, if_pos rfl,
    expand_two start first " " second "" x y hp plain h, String.append_empty]

end Alias

namespace Standard

def ruleOf (entry : Field × Document) : Alias where
  name := entry.1
  description := entry.2.getD "description"
  params := entry.2.getD "params"
  qmkPattern := entry.2.getD "qmk_pattern"
  zmkPattern := entry.2.getD "zmk_pattern"
  support := entry.2.getD "firmware_support"

theorem aliases_eq_ok : Reading.aliases aliasFile = .ok (behaviors.map ruleOf) := rfl

end Standard

namespace Zmk

def magicMarks : List String := ["&ak_", "&lt_ak_", "&mt_ak_"]

def shiftMarks : List String := ["LSFT", "LSHIFT"]

def isPlain (entry : Field × Document) : Bool :=
  match entry.1, entry.2.find "zmk" with
  | .word name, .ok (some (.text zmk)) =>
    !name.toList.contains ':' &&
      !Text.marked (magicMarks ++ shiftMarks) (if zmk.isEmpty then name else zmk)
  | _, _ => false

theorem isPlain_standard : ∀ entry ∈ Standard.allKeycodes, isPlain entry :=
  all_eq_true.mp (by decide +kernel)

theorem listed_plain {entry : Document} (found : Standard.allKeycodes.lookup (.word said) = some entry) :
    ':' ∉ said.toList ∧ ∃ zmk, entry.find "zmk" = .ok (some (.text zmk)) ∧
      Text.marked (magicMarks ++ shiftMarks) (if zmk.isEmpty then said else zmk) = false := by
  have h := isPlain_standard _ (mem_of_lookup found)
  simp only [isPlain] at h
  split at h
  · rename_i name zmk hn hz
    obtain rfl : said = name := Field.word.inj hn
    rw [Bool.and_eq_true_iff, Bool.not_eq_true', Bool.not_eq_true'] at h
    exact ⟨by simpa using h.1, zmk, hz, h.2⟩
  · cases h

/-- What stands for a key as an argument: the magic key, a key of the table, or what is said. -/
inductive Argument (family : String) : String → String → Prop
  | magic : Argument family "MAGIC" ("&ak_" ++ family)
  | listed {said word : String} (other : said ≠ "MAGIC")
      (listed : (Standard.allKeycodes.lookup (.word said)).isSome = true)
      (plain : Text.marked (magicMarks ++ shiftMarks) word = false) : Argument family said word
  | unlisted {said : String} (unlisted : Standard.allKeycodes.lookup (.word said) = none) :
      Argument family said said

/-- The words that stand for a key, by the form of its text. -/
inductive Spelled (family key : String) : List String → Prop
  | magic (isMagic : key = "MAGIC") : Spelled family key ["&ak_" ++ family]
  | listed {text : String} (other : key ≠ "MAGIC") (single : Vocabulary.parts key = [key])
      (plain : Text.marked (magicMarks ++ shiftMarks) text = false) : Spelled family key [text]
  | unknown {wrapper : String} {arguments : List String} (other : key ≠ "MAGIC")
      (isParts : Vocabulary.parts key = wrapper :: arguments)
      (unknown : .word wrapper ∉ Standard.behaviors.map (·.1)) : Spelled family key ["&none"]
  | morph {base shifted : String} (isParts : Vocabulary.parts key = ["sm", base, shifted]) :
      Spelled family key ["&sm_" ++ (Text.lower base ++ "_" ++ Text.lower shifted)]
  | magicTap {wrapper hold : String} (isWrapper : wrapper ∈ ["lt", "mt"])
      (isParts : Vocabulary.parts key = [wrapper, hold, "MAGIC"]) :
      Spelled family key ["&" ++ wrapper ++ "_ak_" ++ family, hold, "0"]
  | held {wrapper behavior hold tap word : String}
      (isWrapper : (wrapper, behavior) ∈ [("hrm", "&hml"), ("hrm", "&hmr"), ("lt", "&lt"), ("mt", "&mt")])
      (isParts : Vocabulary.parts key = [wrapper, hold, tap]) (argument : Argument family tap word) :
      Spelled family key [behavior, hold, word]
  | tapped {tap word : String} (isParts : Vocabulary.parts key = ["ALGR_T", tap])
      (argument : Argument family tap word) : Spelled family key ["&mt", "RALT", word]
  | bluetooth {action : String} (isParts : Vocabulary.parts key = ["bt", action]) :
      Spelled family key ["&bt", "BT_" ++ action]
  | layer {wrapper behavior name : String}
      (isWrapper : (wrapper, behavior) ∈ [("df", "&to"), ("osl", "&sl")])
      (isParts : Vocabulary.parts key = [wrapper, name]) : Spelled family key [behavior, name]

def SpelledAs (family key text : String) : Prop :=
  ∃ words, Spelled family key words ∧ text = Text.join " " words

section Composite

variable {t : Encoder} {place : Place} {text wrapper : String} {arguments : List String}
  {rule : Alias}

theorem parts_ne_nil (key : String) : Vocabulary.parts key ≠ [] := by
  obtain ⟨rest, h⟩ := Text.splitChars_eq_cons (· == ':') key.toList
  simp [Vocabulary.parts, Text.split, h]

theorem parts_of_single (h : ':' ∉ key.toList) : Vocabulary.parts key = [key] :=
  Text.split_of_not_mem h

theorem checkCount_eq_ok {count : Nat} (hc : rule.params.length = .ok count) :
    Vocabulary.checkCount rule wrapper arguments = .ok () ↔ arguments.length = count := by
  rw [Vocabulary.checkCount, hc, ok_bind]
  by_cases h : arguments.length = count
  · rw [if_neg (not_not.mpr h)]
    exact iff_of_true rfl h
  · rw [if_pos h]
    exact iff_of_false (fun done => by cases done) h

theorem argument_plain (ho : param ≠ "key") (said : String) :
    argument t place (.text param) said = .ok (.text said) := by
  have h : (Document.text param).isWord "key" = false := by simpa [Document.isWord] using ho
  rw [argument, h]
  rfl

theorem composite_morph (isParts : Vocabulary.parts key = "sm" :: arguments)
    (done : composite t place key = .ok text) (family : String) : SpelledAs family key text := by
  unfold composite at done
  rw [isParts] at done
  split at done
  · rename_i base shifted h
    refine ⟨_, .morph (isParts.trans h), ?_⟩
    rw [← Except.ok.inj done]
    simp [Text.join, toString, String.append_assoc]
  · cases done
  · rename_i hd h
    exact absurd (cons.inj h).1.symm hd
  · rename_i h
    cases h

variable (isParts : Vocabulary.parts key = wrapper :: arguments) (noMorph : wrapper ≠ "sm")
  (found : findAlias? t.vocabulary.aliases wrapper = some rule) (supported : rule.supports "zmk" = .ok true)

include isParts

include noMorph in
theorem composite_unknown (hu : findAlias? t.vocabulary.aliases wrapper = none)
    (done : composite t place key = .ok text) : text = "&none" := by
  unfold composite at done
  rw [isParts] at done
  split at done
  · rename_i h
    exact absurd (cons.inj h).1 noMorph
  · rename_i h
    exact absurd (cons.inj h).1 noMorph
  · rename_i h
    cases h
    rw [hu] at done
    exact (Except.ok.inj done).symm
  · rename_i h
    cases h

include found supported

include noMorph in
/-- A key whose alias is supported is written by the alias, once its arguments are counted. The magic key
as the tap of two aliases is written by a behaviour of its own. -/
theorem composite_of_rule :
    composite t place key = (do
      Vocabulary.checkCount rule wrapper arguments
      match wrapper, arguments with
      | "lt", [layer, "MAGIC"] => magicTap t place "lt" layer
      | "mt", [mod, "MAGIC"] => magicTap t place "mt" mod
      | _, _ =>
        let args ← rule.argumentsFor arguments (argument t place)
        if wrapper = "hrm" then homeRowMod t place args else rule.toZmk args) := by
  unfold composite
  rw [isParts]
  split
  · rename_i h
    exact absurd (cons.inj h).1 noMorph
  · rename_i h
    exact absurd (cons.inj h).1 noMorph
  · rename_i h
    cases h
    simp only [found, supported, ok_bind]
    rfl
  · rename_i h
    cases h

include noMorph in
theorem composite_eq_ok {params : List Document} (h : rule.params = .list params)
    (done : composite t place key = .ok text) : arguments.length = params.length ∧
      ((wrapper ∈ ["lt", "mt"] ∧ ∃ hold, arguments = [hold, "MAGIC"] ∧
          magicTap t place wrapper hold = .ok text) ∨
        ∃ args, rule.argumentsFor arguments (argument t place) = .ok args ∧
          (if wrapper = "hrm" then homeRowMod t place args else rule.toZmk args) = .ok text) := by
  rw [composite_of_rule isParts noMorph found supported] at done
  obtain ⟨u, counted, done⟩ := bind_eq_ok.mp done
  refine ⟨(checkCount_eq_ok (h ▸ rfl)).mp counted, ?_⟩
  split at done
  · exact .inl ⟨by simp, _, rfl, done⟩
  · exact .inl ⟨by simp, _, rfl, done⟩
  · exact .inr (bind_eq_ok.mp done)

theorem composite_one (done : composite t place key = .ok text)
    (start param : String) (ho : wrapper ∉ ["sm", "lt", "mt", "hrm"])
    (hp : rule.params = .list [.text param]) (hf : param ≠ "self") (isPattern : rule.zmkPattern =
      .text (String.ofList (Template.written start.toList [(param.toList, [])])))
    (plain : Template.isWritten start.toList [(param.toList, [])]) : ∃ said, arguments = [said] ∧
      ∀ word, argument t place (.text param) said = .ok (.text word) → text = start ++ word := by
  simp only [mem_cons, not_mem_nil, or_false, not_or] at ho
  obtain ⟨noMorph, hl, hm, hh⟩ := ho
  obtain ⟨hc, ⟨two, -⟩ | ⟨args, h, done⟩⟩ := composite_eq_ok isParts noMorph found supported hp done
  · simp [hl, hm] at two
  obtain ⟨said, rfl⟩ := length_eq_one_iff.mp hc
  refine ⟨said, rfl, fun word hw => ?_⟩
  rw [Alias.argumentsFor_one hp hw] at h
  obtain rfl := Except.ok.inj h
  rw [if_neg hh, Alias.toZmk_one start param word supported isPattern plain hf] at done
  exact (Except.ok.inj done).symm

theorem composite_layer (done : composite t place key = .ok text)
    (family behavior : String) (h : (wrapper, behavior) ∈ [("df", "&to"), ("osl", "&sl")])
    (hp : rule.params = .list ["layer"]) (isPattern : rule.zmkPattern =
      .text (String.ofList (Template.written (behavior ++ " ").toList [("layer".toList, [])])))
    (plain : Template.isWritten (behavior ++ " ").toList [("layer".toList, [])]) :
    SpelledAs family key text := by
  have ha : wrapper ∉ ["sm", "lt", "mt", "hrm"] := by
    simp only [mem_cons, Prod.mk.injEq, not_mem_nil, or_false] at h
    rcases h with ⟨rfl, -⟩ | ⟨rfl, -⟩ <;> decide
  obtain ⟨layer, rfl, ht⟩ := composite_one isParts found supported done (behavior ++ " ") "layer"
    ha hp (by decide) isPattern plain
  refine ⟨[behavior, layer], .layer h isParts, ?_⟩
  rw [ht layer (argument_plain (by decide) layer)]
  simp [Text.join, String.append_assoc]

end Composite

/-- An encoder with the standard tables, for a layer with a magic key of its own. -/
structure StandardFor (name : String) (t : Encoder) : Prop where
  aliases : Reading.aliases Standard.aliasFile = .ok t.vocabulary.aliases
  keycodes : t.vocabulary.keycodes = Standard.allKeycodes
  isBase : Text.startsWith name "BASE_" = true
  configured : ∃ config, t.magic = some config ∧ (config.find? (.text name)).isSome = true

namespace StandardFor

variable {t : Encoder} {name : String} {i : Document} (standard : StandardFor name t)

include standard

theorem aliases_eq : t.vocabulary.aliases = Standard.behaviors.map Standard.ruleOf :=
  (Except.ok.inj (Standard.aliases_eq_ok.symm.trans standard.aliases)).symm

theorem mapped : mappedBase? t name = some name := by
  obtain ⟨config, h, found⟩ := standard.configured
  simp [mappedBase?, familyBase?, standard.isBase, h, found]

theorem magicKey_eq : magicKey t (.text name) = .ok ("&ak_" ++ familyLabel name) :=
  magicKey_eq_ok.mpr ⟨name, rfl, .inl standard.mapped⟩

theorem magicTap_eq (wrapper hold : String) : magicTap t ⟨.text name, i⟩ wrapper hold =
      .ok (Text.join " " ["&" ++ wrapper ++ "_ak_" ++ familyLabel name, hold, "0"]) := by
  rw [magicTap_text, standard.mapped]
  simp [Text.join, String.append_assoc, toString]

theorem keyArgument_argument (said : String) :
    ∃ word, keyArgument t ⟨.text name, i⟩ (.text said) = .ok (.text word) ∧
      Argument (familyLabel name) said word := by
  by_cases hm : said = "MAGIC"
  · subst hm
    refine ⟨_, ?_, .magic⟩
    simp [keyArgument, Document.isWord, standard.magicKey_eq, ok_bind, ok_pure]
  have ho : (Document.text said).isWord "MAGIC" = false := by simpa [Document.isWord] using hm
  have hf : (Document.text said).asField = .ok (some (.word said)) := rfl
  cases found : Standard.allKeycodes.lookup (.word said) with
  | none =>
    refine ⟨said, ?_, .unlisted found⟩
    simp [keyArgument, ho, hf, standard.keycodes, found, ok_bind, ok_pure]
  | some entry =>
    obtain ⟨-, zmk, hz, h⟩ := listed_plain found
    have hl : (Standard.allKeycodes.lookup (.word said)).isSome := by
      rw [found]
      rfl
    cases he : zmk.isEmpty with
    | true =>
      rw [he, if_pos rfl] at h
      refine ⟨said, ?_, .listed hm hl h⟩
      simp [keyArgument, ho, hf, standard.keycodes, found, hz, Document.findD,
        Document.isPresent, he, ok_bind, ok_pure]
    | false =>
      rw [he, if_neg Bool.false_ne_true] at h
      refine ⟨if Text.startsWith zmk "&kp " then Text.drop 4 zmk else zmk, ?_,
        .listed hm hl ?_⟩
      · simp [keyArgument, ho, hf, standard.keycodes, found, hz, Document.findD,
          Document.isPresent, he, Document.word, ok_bind, ok_pure]
      · split
        · exact Text.marked_drop h
        · exact h

section Rules

variable {text wrapper : String} {arguments : List String} {rule : Alias}
  (isParts : Vocabulary.parts key = wrapper :: arguments)
  (found : findAlias? t.vocabulary.aliases wrapper = some rule)
  (supported : rule.supports "zmk" = .ok true) (done : composite t ⟨.text name, i⟩ key = .ok text)

include isParts found supported done

theorem spelled_homeRow (hh : wrapper = "hrm") (hp : rule.params = .list ["mod", "key"]) :
    SpelledAs (familyLabel name) key text := by
  subst hh
  obtain ⟨hc, ⟨two, -⟩ | ⟨args, h, done⟩⟩ := composite_eq_ok isParts (by decide) found supported hp done
  · simp at two
  obtain ⟨hold, tap, rfl⟩ := length_eq_two.mp hc
  obtain ⟨word, hw, ha⟩ := standard.keyArgument_argument (i := i) tap
  rw [Alias.argumentsFor_two hp (by decide) (argument_plain (by decide) hold) hw] at h
  obtain rfl := Except.ok.inj h
  rw [if_pos rfl] at done
  obtain ⟨isLeft, -, done⟩ := bind_eq_ok.mp done
  let behavior := if isLeft then "hml" else "hmr"
  have ht : s!"&{behavior} {hold} {word}" = text := Except.ok.inj done
  refine ⟨["&" ++ behavior, hold, word], .held ?_ isParts ha, ?_⟩
  · cases isLeft <;> simp [behavior]
  · rw [← ht]
    simp [Text.join, toString, String.append_assoc]

theorem spelled_held (behavior param : String) (hw : (wrapper, behavior) ∈ [("lt", "&lt"), ("mt", "&mt")])
    (hp : rule.params = .list [.text param, "key"]) (h : param ≠ "key" ∧ param ≠ "self")
    (isPattern : rule.zmkPattern = .text (String.ofList (Template.written (behavior ++ " ").toList
      [(param.toList, " ".toList), ("key".toList, "".toList)])))
    (plain : Template.isWritten (behavior ++ " ").toList
      [(param.toList, " ".toList), ("key".toList, "".toList)]) : SpelledAs (familyLabel name) key text := by
  have ha : wrapper ≠ "sm" ∧ wrapper ≠ "hrm" := by
    simp only [mem_cons, Prod.mk.injEq, not_mem_nil, or_false] at hw
    rcases hw with ⟨rfl, -⟩ | ⟨rfl, -⟩ <;> decide
  obtain ⟨hc, ⟨two, hold, rfl, done⟩ | ⟨args, har, done⟩⟩ :=
    composite_eq_ok isParts ha.1 found supported hp done
  · rw [standard.magicTap_eq] at done
    exact ⟨_, .magicTap two isParts, (Except.ok.inj done).symm⟩
  obtain ⟨hold, tap, rfl⟩ := length_eq_two.mp hc
  obtain ⟨word, hwr, han⟩ := standard.keyArgument_argument (i := i) tap
  rw [Alias.argumentsFor_two hp h.1 (argument_plain h.1 hold) hwr] at har
  obtain rfl := Except.ok.inj har
  rw [if_neg ha.2, Alias.toZmk_two (behavior ++ " ") param "key" hold word supported isPattern plain
    ⟨h.2, by decide⟩ h.1] at done
  refine ⟨[behavior, hold, word], .held ?_ isParts han, ?_⟩
  · exact mem_cons_of_mem _ (mem_cons_of_mem _ hw)
  · rw [← Except.ok.inj done]
    simp [Text.join, String.append_assoc]

end Rules

theorem composite_spelled {text : String} (ho : key ≠ "MAGIC")
    (done : composite t ⟨.text name, i⟩ key = .ok text) : SpelledAs (familyLabel name) key text := by
  obtain ⟨wrapper, arguments, isParts⟩ := exists_cons_of_ne_nil (parts_ne_nil key)
  by_cases hmr : wrapper = "sm"
  · subst hmr
    exact composite_morph isParts done _
  cases found : findAlias? t.vocabulary.aliases wrapper with
  | none =>
    refine ⟨["&none"], .unknown ho isParts ?_, composite_unknown isParts hmr found done⟩
    rw [standard.aliases_eq, findAlias?, find?_eq_none] at found
    intro hm
    obtain ⟨entry, he, h⟩ := mem_map.mp hm
    exact found _ (mem_map_of_mem he) (decide_eq_true h)
  | some rule =>
    have hk := found
    rw [standard.aliases_eq, findAlias?] at hk
    have hm := mem_of_find?_eq_some hk
    have h : rule.name = .word wrapper := by simpa using find?_some hk
    simp only [Standard.behaviors, map_cons, map_nil, mem_cons, not_mem_nil, or_false] at hm
    rcases hm with rfl | rfl | rfl | rfl | rfl | rfl | rfl | rfl
    · exact standard.spelled_homeRow isParts found rfl done (Field.word.inj h).symm rfl
    · obtain rfl : "lt" = wrapper := Field.word.inj h
      exact standard.spelled_held isParts found rfl done "&lt" "layer" (by simp) rfl (by decide) rfl
        (by decide)
    · obtain rfl : "mt" = wrapper := Field.word.inj h
      exact standard.spelled_held isParts found rfl done "&mt" "mod" (by simp) rfl (by decide) rfl
        (by decide)
    · obtain rfl : "bt" = wrapper := Field.word.inj h
      obtain ⟨action, rfl, ht⟩ := composite_one isParts found rfl done "&bt BT_" "action" (by decide)
        rfl (by decide) rfl (by decide)
      refine ⟨_, .bluetooth isParts, ?_⟩
      rw [ht action (argument_plain (by decide) action)]
      simp [Text.join, ← String.append_assoc]
    · obtain rfl : "ALGR_T" = wrapper := Field.word.inj h
      obtain ⟨tap, rfl, ht⟩ := composite_one isParts found rfl done "&mt RALT " "key" (by decide)
        rfl (by decide) rfl (by decide)
      obtain ⟨word, hw, ha⟩ := standard.keyArgument_argument (i := i) tap
      refine ⟨_, .tapped isParts ha, ?_⟩
      rw [ht word hw]
      simp [Text.join, ← String.append_assoc]
    · obtain rfl : "df" = wrapper := Field.word.inj h
      exact composite_layer isParts found rfl done _ "&to" (by simp) rfl rfl (by decide)
    · obtain rfl : "osl" = wrapper := Field.word.inj h
      exact composite_layer isParts found rfl done _ "&sl" (by simp) rfl rfl (by decide)
    · exact absurd (Field.word.inj h).symm hmr

theorem value_spelled {d : Document} (done : value t ⟨.text name, i⟩ key = .ok d) :
    ∃ text, d = .text text ∧ SpelledAs (familyLabel name) key text := by
  unfold value at done
  split at done
  · rename_i hm
    obtain ⟨text, h, rfl⟩ := map_eq_ok.mp done
    rw [standard.magicKey_eq] at h
    exact ⟨text, rfl, ["&ak_" ++ familyLabel name], .magic hm,
      by rw [← Except.ok.inj h]; simp [Text.join]⟩
  · rename_i ho
    split at done
    · rename_i entry found
      rw [Vocabulary.keycode?, standard.keycodes] at found
      obtain ⟨hc, zmk, hz, hp⟩ := listed_plain found
      obtain ⟨value, hv, rfl⟩ := map_eq_ok.mp done
      obtain rfl : Document.text zmk = value := by
        simpa [Document.findD, hz, ok_bind, ok_pure] using hv
      cases he : zmk.isEmpty with
      | true =>
        refine ⟨"&none", by simp [supported, Document.isPresent, he], ["&none"],
          .listed ho (parts_of_single hc) (by decide), by simp [Text.join]⟩
      | false =>
        rw [he, if_neg Bool.false_ne_true] at hp
        exact ⟨zmk, by simp [supported, Document.isPresent, he], [zmk],
          .listed ho (parts_of_single hc) hp, by simp [Text.join]⟩
    · split at done
      · obtain ⟨text, h, rfl⟩ := map_eq_ok.mp done
        exact ⟨text, rfl, standard.composite_spelled ho h⟩
      · cases done

end StandardFor

end Zmk

end Keymap
