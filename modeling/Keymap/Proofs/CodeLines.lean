import Keymap.Proofs.Texts
import Keymap.Text.Numeral
import Mathlib.Data.List.Forall2

namespace Keymap.Code

open List

variable {c : Char} {cs : List Char} {parts : List String}

variable {s : State} {sep : String}

inductive Token where
  | word (text : String)
  | mark (c : Char)
  | literal (text : String)
  deriving DecidableEq, Repr

/-- What the reader of a line is in, with the characters that it has of it so far. -/
inductive State where
  | between
  | word (soFar : List Char)
  | slash
  | literal (soFar : List Char)
  | escape (soFar : List Char)
  | comment
  deriving DecidableEq, Repr

def begin (c : Char) : State × List Token :=
  if Text.isWordChar c then (.word [c], [])
  else if Text.isBlank c then (.between, [])
  else if c = '/' then (.slash, [])
  else if c = '"' then (.literal [], [])
  else (.between, [.mark c])

def step : State → Char → State × List Token
  | .between, c => begin c
  | .word soFar, c =>
    if Text.isWordChar c then (.word (soFar ++ [c]), [])
    else ((begin c).1, .word (String.ofList soFar) :: (begin c).2)
  | .slash, c => if c = '/' then (.comment, []) else ((begin c).1, .mark '/' :: (begin c).2)
  | .literal soFar, c =>
    if c = '"' then (.between, [.literal (String.ofList soFar)])
    else if c = '\\' then (.escape soFar, []) else (.literal (soFar ++ [c]), [])
  | .escape soFar, c => (.literal (soFar ++ ['\\', c]), [])
  | .comment, _ => (.comment, [])

def read : State → List Char → State × List Token
  | s, [] => (s, [])
  | s, c :: cs => ((read (step s c).1 cs).1, (step s c).2 ++ (read (step s c).1 cs).2)

def State.rest : State → List Token
  | .between | .comment => []
  | .word soFar => [.word (String.ofList soFar)]
  | .slash => [.mark '/']
  | .literal _ | .escape _ => [.mark '"']

def tokens (cs : List Char) : List Token :=
  (read .between cs).2 ++ (read .between cs).1.rest

def line (s : String) : List Token :=
  tokens s.toList

def lines (s : String) : List (List Token) :=
  (Text.splitChars (· == '\n') s.toList).map tokens

theorem read_append (s : State) (a b : List Char) : read s (a ++ b) =
      ((read (read s a).1 b).1, (read s a).2 ++ (read (read s a).1 b).2) := by
  induction a generalizing s with
  | nil => rfl
  | cons c cs ih => simp only [cons_append, read, ih, append_assoc]

def State.IsOut : State → Prop
  | .between | .word _ => True
  | _ => False

theorem step_of_apart (out : s.IsOut) (h : Text.isWordChar c = false) :
    step s c = ((begin c).1, s.rest ++ (begin c).2) := by
  cases s with
  | between => rfl
  | word soFar => simp [step, h, State.rest]
  | _ => cases out

theorem read_of_apart (out : s.IsOut) (h : Text.isWordChar c = false) (cs : List Char) : read s (c :: cs) =
      ((read .between (c :: cs)).1, s.rest ++ (read .between (c :: cs)).2) := by
  have hf : step .between c = begin c := rfl
  rw [read, step_of_apart out h, read]
  simp only [hf, append_assoc]

structure Closes (s : String) (ts : List Token) : Prop where
  single : '\n' ∉ s.toList
  read_eq : read .between s.toList = (.between, ts)

structure Reads (s : String) (ts : List Token) : Prop where
  single : '\n' ∉ s.toList
  out : (read .between s.toList).1.IsOut
  line_eq : line s = ts

theorem closes_ofList {ts : List Token} (h : '\n' ∉ cs ∧ read .between cs = (.between, ts)) :
    Closes (String.ofList cs) ts :=
  ⟨by rw [String.toList_ofList]; exact h.1, by rw [String.toList_ofList]; exact h.2⟩

variable {a b : String} {ts us : List Token}

theorem single_append (h : '\n' ∉ a.toList) (hs : '\n' ∉ b.toList) : '\n' ∉ (a ++ b).toList := by
  rw [String.toList_append, mem_append, not_or]
  exact ⟨h, hs⟩

theorem mem_join (h : c ∈ (Text.join sep parts).toList) : c ∈ sep.toList ∨ ∃ p ∈ parts, c ∈ p.toList := by
  induction parts with
  | nil => simp [Text.join] at h
  | cons p ps ih =>
    cases ps with
    | nil => exact .inr ⟨p, mem_cons_self, by simpa [Text.join] using h⟩
    | cons q qs =>
      rw [Text.join, String.intercalate_cons_cons, String.toList_append, String.toList_append,
        mem_append, mem_append] at h
      rcases h with (own | hs) | hl
      · exact .inr ⟨p, mem_cons_self, own⟩
      · exact .inl hs
      · refine (ih hl).imp_right ?_
        rintro ⟨r, hr, hp⟩
        exact ⟨r, mem_cons_of_mem _ hr, hp⟩

theorem single_join (h : '\n' ∉ sep.toList) (he : ∀ p ∈ parts, '\n' ∉ p.toList) :
    '\n' ∉ (Text.join sep parts).toList := by
  intro hm
  rcases mem_join hm with hs | ⟨p, hpr, hp⟩
  · exact h hs
  · exact he p hpr hp

theorem Closes.reads (h : Closes a ts) : Reads a ts where
  single := h.single
  out := by
    rw [h.read_eq]
    exact True.intro
  line_eq := by simp [line, tokens, h.read_eq, State.rest]

theorem Closes.append_reads (hf : Closes a ts) (h : Reads b us) : Reads (a ++ b) (ts ++ us) := by
  have hw : read .between (a ++ b).toList =
      ((read .between b.toList).1, ts ++ (read .between b.toList).2) := by
    rw [String.toList_append, read_append, hf.read_eq]
  refine ⟨single_append hf.single h.single, ?_, ?_⟩
  · rw [hw]
    exact h.out
  · rw [line, tokens, hw, ← h.line_eq, line, tokens, append_assoc]

theorem Reads.read_append (h : Reads a ts) (ha : Text.isWordChar c = false) :
    read .between (a ++ String.ofList (c :: cs)).toList =
      ((read .between (c :: cs)).1, ts ++ (read .between (c :: cs)).2) := by
  rw [String.toList_append, String.toList_ofList, Code.read_append, read_of_apart h.out ha,
    ← h.line_eq, line, tokens, append_assoc]

theorem Reads.append_closes (h : Reads a ts) (hs : Closes (String.ofList (c :: cs)) us)
    (ha : Text.isWordChar c = false) : Closes (a ++ String.ofList (c :: cs)) (ts ++ us) := by
  have hr := hs.read_eq
  rw [String.toList_ofList] at hr
  exact ⟨single_append h.single hs.single, by rw [h.read_append ha, hr]⟩

theorem read_comment (cs : List Char) : read .comment cs = (.comment, []) := by
  induction cs with
  | nil => rfl
  | cons c cs ih => simp [read, step, ih]

structure Comments (s : String) (ts : List Token) : Prop where
  single : '\n' ∉ s.toList
  read_eq : read .between s.toList = (.comment, ts)

theorem comments_ofList {ts : List Token} (h : '\n' ∉ cs ∧ read .between cs = (.comment, ts)) :
    Comments (String.ofList cs) ts :=
  ⟨by rw [String.toList_ofList]; exact h.1, by rw [String.toList_ofList]; exact h.2⟩

theorem Comments.append (h : Comments a ts) (hs : '\n' ∉ b.toList) : Comments (a ++ b) ts where
  single := single_append h.single hs
  read_eq := by simp [read_append, h.read_eq, read_comment]

theorem Reads.append_comments (h : Reads a ts) (hs : Comments (String.ofList (c :: cs)) us)
    (ha : Text.isWordChar c = false) : Comments (a ++ String.ofList (c :: cs)) (ts ++ us) := by
  have hr := hs.read_eq
  rw [String.toList_ofList] at hr
  exact ⟨single_append h.single hs.single, by rw [h.read_append ha, hr]⟩

def IsName (s : String) : Prop :=
  s.toList ≠ [] ∧ ∀ c ∈ s.toList, Text.isWordChar c = true

theorem read_word {soFar : List Char} (h : ∀ c ∈ cs, Text.isWordChar c) :
    read (.word soFar) cs = (.word (soFar ++ cs), []) := by
  induction cs generalizing soFar with
  | nil => simp [read]
  | cons c cs ih =>
    rw [forall_mem_cons] at h
    simp [read, step, h.1, ih h.2]

theorem read_name (hp : cs ≠ []) (h : ∀ c ∈ cs, Text.isWordChar c) : read .between cs = (.word cs, []) := by
  obtain ⟨c, cs, rfl⟩ := exists_cons_of_ne_nil hp
  rw [forall_mem_cons] at h
  simp [read, step, begin, h.1, read_word h.2]

theorem IsName.reads (h : IsName a) : Reads a [.word a] where
  single := fun hm => absurd (h.2 _ hm) (by decide)
  out := by
    rw [read_name h.1 h.2]
    exact True.intro
  line_eq := by simp [line, tokens, read_name h.1 h.2, State.rest]

theorem isWordChar_of_isIdentifierChar (h : Text.isIdentifierChar c) : Text.isWordChar c := by
  have ha := Text.lt_of_isIdentifierChar h
  rw [Text.isIdentifierChar, Bool.or_eq_true] at h
  rw [Text.isWordChar, Text.isAlphanumeric, if_pos ha, Bool.or_eq_true]
  exact h

theorem isName_of_isIdentifier (hp : a ≠ "") (hn : Text.IsIdentifier a) : IsName a :=
  ⟨fun h => hp (String.toList_eq_nil_iff.mp h),
    fun c hm => isWordChar_of_isIdentifierChar (hn c hm)⟩

theorem lines_newline (a b : String) : lines (a ++ "\n" ++ b) = lines a ++ lines b := by
  rw [lines, Text.splitChars_joined rfl, map_append, lines, lines]

theorem lines_of_single (h : '\n' ∉ a.toList) : lines a = [line a] := by
  rw [lines, Text.splitChars_of_not_mem h, map_singleton, line]

def code (s : String) : List Token :=
  (lines s).flatten

theorem code_newline (a b : String) : code (a ++ "\n" ++ b) = code a ++ code b := by
  rw [code, lines_newline, flatten_append, code, code]

theorem code_of_single (h : '\n' ∉ a.toList) : code a = line a := by
  rw [code, lines_of_single h, flatten_singleton]

theorem Reads.code_eq (h : Reads a ts) : code a = ts := by
  rw [code_of_single h.single, h.line_eq]

theorem Closes.code_eq (h : Closes a ts) : code a = ts :=
  h.reads.code_eq

theorem Comments.code_eq (h : Comments a ts) : code a = ts := by
  rw [code_of_single h.single]
  simp [line, tokens, h.read_eq, State.rest]

theorem code_unlines (ls : List String) : code (Text.unlines ls) = ls.flatMap code := by
  induction ls with
  | nil => rfl
  | cons l ls ih =>
    cases ls with
    | nil => simp [Text.unlines]
    | cons l' ls =>
      rw [Text.unlines, String.intercalate_cons_cons, code_newline, flatMap_cons, ← ih, Text.unlines]

/-- Words that mean something to the generated code itself. -/
def keywords : List String :=
  ["return", "if", "switch", "case", "default", "enum", "const", "define", "layer", "base_layer",
   "keycode", "combo_index", "combo_should_trigger"]

/-- The text of an expression: it stays on its line, opens nothing and is no part of a statement. -/
structure Plain (s : String) : Prop where
  chars : ∀ c ∈ s.toList, c ∉ ['\n', '"', '/', '\x7b', '\x7d', ';', ':', '=', '#']
  words : ∀ w ∈ keywords, .word w ∉ line s

theorem State.IsOut.mark_not_mem_rest (out : s.IsOut) (c : Char) : .mark c ∉ s.rest := by
  cases s with
  | between | word => simp [State.rest]
  | _ => cases out

theorem begin_plain (h : Text.isWordChar c = false) (notSlash : c ≠ '/') (hn : c ≠ '"') :
    begin c = (.between, if Text.isBlank c then [] else [.mark c]) := by
  rw [begin, h, if_neg notSlash, if_neg hn]
  cases Text.isBlank c <;> rfl

theorem step_plain (out : s.IsOut) (notSlash : c ≠ '/') (hn : c ≠ '"') :
    (step s c).1.IsOut ∧ ∀ d, .mark d ∈ (step s c).2 → d = c := by
  cases hw : Text.isWordChar c with
  | true =>
    cases s with
    | between => simp [step, begin, hw, State.IsOut]
    | word soFar => simp [step, hw, State.IsOut]
    | _ => cases out
  | false =>
    rw [step_of_apart out hw, begin_plain hw notSlash hn]
    refine ⟨True.intro, fun d h => ?_⟩
    rcases mem_append.mp h with h | h
    · exact absurd h (out.mark_not_mem_rest d)
    · split at h
      · cases h
      · exact Token.mark.inj (mem_singleton.mp h)

theorem read_plain (out : s.IsOut) (hp : ∀ c ∈ cs, c ≠ '/' ∧ c ≠ '"') :
    (read s cs).1.IsOut ∧ ∀ c, .mark c ∈ (read s cs).2 → c ∈ cs := by
  induction cs generalizing s with
  | nil => exact ⟨out, fun c h => nomatch h⟩
  | cons c cs ih =>
    rw [forall_mem_cons] at hp
    obtain ⟨hs, own⟩ := step_plain out hp.1.1 hp.1.2
    obtain ⟨he, hl⟩ := ih hs hp.2
    refine ⟨he, fun d h => ?_⟩
    rcases mem_append.mp h with h | h
    · exact own d h ▸ mem_cons_self
    · exact mem_cons_of_mem _ (hl d h)

namespace Plain

theorem opens_nothing (hp : Plain a) : ∀ c ∈ a.toList, c ≠ '/' ∧ c ≠ '"' := by
  intro c hm
  have h := hp.chars c hm
  simp only [mem_cons, not_or] at h
  exact ⟨h.2.2.1, h.2.1⟩

theorem single (hp : Plain a) : '\n' ∉ a.toList :=
  fun h => hp.chars _ h mem_cons_self

theorem reads (h : Plain a) : Reads a (line a) :=
  ⟨h.single, (read_plain (s := .between) True.intro h.opens_nothing).1, rfl⟩

theorem mark_not_mem (hp : Plain a)
    (hs : c ∈ ['\n', '"', '/', '\x7b', '\x7d', ';', ':', '=', '#']) : .mark c ∉ line a := by
  intro h
  rcases mem_append.mp h with h | h
  · have ht := (read_plain (s := .between) True.intro hp.opens_nothing).2 c h
    exact hp.chars c ht hs
  · exact hp.reads.out.mark_not_mem_rest c h

theorem ne_keyword (hp : Plain a) (hn : IsName a) {w : String} (h : w ∈ keywords) : a ≠ w := by
  rintro rfl
  have hm : .word a ∈ line a := by
    rw [hn.reads.line_eq]
    exact mem_singleton_self _
  exact hp.words a h hm

end Plain

theorem IsName.plain (hn : IsName a) (ho : a ∉ keywords) : Plain a where
  chars := by
    intro c h hs
    have hw := hn.2 c h
    simp only [mem_cons, not_mem_nil, or_false] at hs
    rcases hs with rfl | rfl | rfl | rfl | rfl | rfl | rfl | rfl | rfl <;>
      exact absurd hw (by decide)
  words := by
    intro w hl h
    rw [hn.reads.line_eq, mem_singleton] at h
    exact ho (Token.word.inj h ▸ hl)

theorem plain_of_capital {rest : String} (hc : c.isUpper)
    (hn : Text.IsIdentifier (String.singleton c ++ rest)) : Plain (String.singleton c ++ rest) := by
  have hs : keywords.all (fun w => (w.toList.head?.map Char.isUpper) = some false) := by decide
  have h : (String.singleton c ++ rest).toList.head? = some c := by simp
  refine (isName_of_isIdentifier ?_ hn).plain fun hl => ?_
  · intro he
    rw [he] at h
    cases h
  · have own := all_eq_true.mp hs _ hl
    rw [h] at own
    simp [hc] at own

end Keymap.Code
