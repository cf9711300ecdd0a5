import Keymap.Header.Layers
import Keymap.Proofs.EscapedLiterals
import Keymap.Proofs.HeaderKeys

namespace Keymap

open List

open Code (IsName)

namespace Header

/-- Allowed characters, on lines that are continued with a backslash. -/
inductive Spliced (allowed : Char → Prop) : List Char → Prop
  | nil : Spliced allowed []
  | own {c : Char} {cs : List Char} (isAllowed : allowed c) (rest : Spliced allowed cs) : Spliced allowed (c :: cs)
  | splice {cs : List Char} (rest : Spliced allowed cs) : Spliced allowed ('\\' :: '\n' :: cs)

def Gap : List Char → Prop :=
  Spliced fun c => Text.isBlank c = true ∧ c ≠ '\n'

def Body : List Char → Prop :=
  Spliced fun c => c ∉ ['\\', '\n']

section Bodies

variable {cs ds body rest : List Char} {keys : List String} {p q : Char → Prop}

namespace Spliced

theorem append (h : Spliced p cs) (hs : Spliced p ds) : Spliced p (cs ++ ds) := by
  induction h with
  | nil => exact hs
  | own ha _ ih => exact .own ha ih
  | splice _ ih => exact .splice ih

theorem imp (hw : ∀ c, p c → q c) (hs : Spliced p cs) : Spliced q cs := by
  induction hs with
  | nil => exact .nil
  | own h _ ih => exact .own (hw _ h) ih
  | splice _ ih => exact .splice ih

theorem of_forall (all : ∀ c ∈ cs, p c) : Spliced p cs := by
  induction cs with
  | nil => exact .nil
  | cons c cs ih => exact .own (all c mem_cons_self) (ih fun d h => all d (mem_cons_of_mem c h))

end Spliced

theorem Gap.isBody (gap : Gap cs) : Body cs := by
  refine Spliced.imp (fun c h hm => ?_) gap
  simp only [mem_cons, not_mem_nil, or_false] at hm
  rcases hm with rfl | rfl
  · exact absurd h.1 (by decide)
  · exact h.2 rfl

theorem Body.dropWhile (hb : Body cs) : Body (cs.dropWhile Text.isBlank) := by
  induction hb with
  | nil => exact .nil
  | own h rest ih =>
    rw [dropWhile_cons]
    split
    · exact ih
    · exact .own h rest
  | splice rest => exact .splice rest

/-- The line is not continued: the text ends here, or a line break follows. -/
def AtLineEnd (rest : List Char) : Prop :=
  rest = [] ∨ ∃ more, rest = '\n' :: more

/-- A macro ends where the first line ends that is not continued. -/
theorem bodyLength_append (hb : Body cs) (he : AtLineEnd rest) : bodyLength (cs ++ rest) = cs.length := by
  induction hb with
  | nil => rcases he with rfl | ⟨more, rfl⟩ <;> rfl
  | @own c cs h _ ih =>
    simp only [mem_cons, not_mem_nil, or_false, not_or] at h
    rw [cons_append, bodyLength, ih, length_cons, Nat.add_comm]
    · exact fun _ hs => absurd hs h.1
    · exact h.2
  | @splice cs _ ih =>
    rw [cons_append, cons_append, bodyLength, ih, length_cons, length_cons, Nat.add_comm]

def unsplicedChar (c : Char) : List Char :=
  if c = '\\' then [] else if c = '\n' then [' '] else [c]

/-- The text of a macro without its backslashes and line ends. -/
def unspliced (cs : List Char) : List Char :=
  cs.flatMap unsplicedChar

theorem toList_replace_single {old : String} {mark : Char} (h : old.toList = [mark]) (new s : String) :
    (Text.replace old new s).toList = s.toList.flatMap fun c => if c = mark then new.toList else [c] := by
  rw [Text.replace, if_neg (by simp [h]), String.toList_ofList, h, Qmk.replaceFrom_single]

theorem toList_unspliced (cs : List Char) :
    (Text.replace "\n" " " (Text.replace "\\" "" (String.ofList cs))).toList = unspliced cs := by
  have h : (String.ofList cs).toList = cs := String.toList_ofList
  rw [toList_replace_single (by decide : "\n".toList = ['\n']),
    toList_replace_single (by decide : "\\".toList = ['\\']), h, flatMap_assoc, unspliced]
  congr 1
  funext c
  by_cases hs : c = '\\' <;> by_cases he : c = '\n' <;> simp [unsplicedChar, hs, he]

theorem unspliced_append (cs ds : List Char) : unspliced (cs ++ ds) = unspliced cs ++ unspliced ds :=
  flatMap_append

theorem unspliced_of_plain (plain : ∀ c ∈ cs, c ∉ ['\\', '\n']) : unspliced cs = cs := by
  induction cs with
  | nil => rfl
  | cons c cs ih =>
    obtain ⟨own, h⟩ := forall_mem_cons.mp plain
    simp only [mem_cons, not_mem_nil, or_false, not_or] at own
    rw [unspliced, flatMap_cons, unsplicedChar, if_neg own.1, if_neg own.2]
    exact congrArg (c :: ·) (ih h)

theorem blank_unspliced (hb : ∀ c ∈ cs, Text.isBlank c ∨ c = '\\') : Blank (unspliced cs) := by
  intro c h
  obtain ⟨d, ht, h⟩ := mem_flatMap.mp h
  rw [unsplicedChar] at h
  split at h
  · cases h
  · rename_i ho
    split at h
    · rw [mem_singleton.mp h]
      decide
    · rw [mem_singleton.mp h]
      exact (hb d ht).resolve_right ho

theorem Gap.blank (gap : Gap cs) : Blank (unspliced cs) := by
  refine blank_unspliced ?_
  induction gap with
  | nil => simp
  | own h _ ih => exact forall_mem_cons.mpr ⟨.inl h.1, ih⟩
  | splice _ ih => exact forall_mem_cons.mpr ⟨.inr rfl, forall_mem_cons.mpr ⟨.inl (by decide), ih⟩⟩

section Plain

variable (plain : ∀ key ∈ keys, ∀ c ∈ key.toList, c ∉ ['\\', '\n'])
include plain

theorem Lists.unspliced (hl : Lists Gap cs keys) : Lists Blank (unspliced cs) keys := by
  induction hl with
  | @last before after key hb h =>
    rw [unspliced_append, unspliced_append, unspliced_of_plain (plain key mem_cons_self)]
    exact .last hb.blank h.blank
  | @more before after cs key keys hb h _ ih =>
    obtain ⟨own, ho⟩ := forall_mem_cons.mp plain
    rw [unspliced_append, unspliced_append, unspliced_append, unspliced_of_plain own]
    exact .more hb.blank h.blank (ih ho)

theorem Lists.isBody (hl : Lists Gap cs keys) : Body cs := by
  induction hl with
  | @last before after key hb h =>
    exact (hb.isBody.append (.of_forall (plain key mem_cons_self))).append h.isBody
  | @more before after cs key keys hb h _ ih =>
    obtain ⟨own, ho⟩ := forall_mem_cons.mp plain
    have rest : Body (',' :: cs) := .own (by decide) (ih ho)
    exact ((hb.isBody.append (.of_forall own)).append h.isBody).append rest

end Plain

end Bodies

section Macros

variable {cs gap body rest : List Char} {name : String} {keys : List Key}

theorem plain_texts (hn : ∀ key ∈ keys, key.Named) :
    ∀ text ∈ keys.map Key.text, ∀ c ∈ text.toList, c ∉ ['\\', '\n'] := by
  intro text hm c ht h
  obtain ⟨key, hk, rfl⟩ := mem_map.mp hm
  have hs := spelled_text (hn key hk)
  simp only [mem_cons, not_mem_nil, or_false] at h
  rcases h with rfl | rfl <;> exact hs.not_mem (by decide) ht

/-- The blanks between the name of a macro and its first key do not matter. -/
theorem bodyKeys_of_lists (hn : ∀ key ∈ keys, key.Named) (hl : Lists Gap body (keys.map Key.text)) :
    bodyKeys (body.dropWhile Text.isBlank) = keys.map Key.unified := by
  let text := Text.replace "\n" " " (Text.replace "\\" "" (String.ofList (body.dropWhile Text.isBlank)))
  have ht : (String.ofList (unspliced body)).toList =
      unspliced (body.takeWhile Text.isBlank) ++ text.toList ++ [] := by
    rw [toList_unspliced, append_nil, ← unspliced_append, takeWhile_append_dropWhile, String.toList_ofList]
  have hb : Blank (unspliced (body.takeWhile Text.isBlank)) :=
    blank_unspliced fun c hm => .inl (mem_takeWhile_imp hm)
  have cut : splitKeys (String.ofList (unspliced body)) = keys.map Key.text := by
    refine splitKeys_of_lists ?_ fun text hm => ?_
    · rw [String.toList_ofList]
      exact hl.unspliced (plain_texts hn)
    · obtain ⟨key, h, rfl⟩ := mem_map.mp hm
      exact isKeycode_text (hn key h)
  show (splitKeys (Text.trim text)).map Header.unified = _
  rw [splitKeys_trim, ← splitKeys_around hb (fun _ hnn => absurd hnn not_mem_nil) ht, cut, map_map]
  exact map_congr_left fun key h => unified_text (hn key h)

/-- The definition of a layer, up to the end of its last line. -/
inductive IsMacro : List Char → String → List Key → Prop
  | mk {gap body : List Char} {name : String} {keys : List Key} (blank : Blank gap) (apart : gap ≠ [])
      (isName : IsName name) (bodyApart : ∃ c ∈ body.head?, Text.isBlank c = true)
      (named : ∀ key ∈ keys, key.Named) (listed : Lists Gap body (keys.map Key.text)) :
    IsMacro ("#define".toList ++ (gap ++ ("LAYER_".toList ++ (name.toList ++ body)))) name keys

theorem exists_visible (hn : ∀ key ∈ keys, key.Named) (hl : Lists Gap body (keys.map Key.text)) :
    ∃ c ∈ body, Text.isBlank c = false := by
  obtain ⟨key, h, hw⟩ : ∃ key ∈ keys, ∀ c ∈ key.text.toList, c ∈ body := by
    generalize ht : keys.map Key.text = texts at hl
    cases hl with
    | last =>
      obtain ⟨key, h, rfl⟩ := mem_map.mp (ht ▸ mem_cons_self)
      exact ⟨key, h, by simp +contextual⟩
    | more =>
      obtain ⟨key, h, rfl⟩ := mem_map.mp (ht ▸ mem_cons_self)
      exact ⟨key, h, by simp +contextual⟩
  have hp : key.text.toList ≠ [] := by simpa using (isKeycode_text (hn key h)).present
  exact ⟨_, hw _ (head_mem hp), first_text (hn key h) _ (head?_eq_some_head hp)⟩

theorem definition?_append (hb : Blank gap) (apart : gap ≠ []) (hn : IsName name)
    (bodyApart : ∃ c ∈ body.head?, Text.isBlank c) (hv : ∃ c ∈ body, Text.isBlank c = false) :
    definition? ("#define".toList ++ (gap ++ ("LAYER_".toList ++ (name.toList ++ (body ++ rest))))) =
      some ("LAYER_" ++ name, body.dropWhile Text.isBlank ++ rest) := by
  have hlt : Text.isBlank 'L' = false := by decide
  have hl : (gap ++ ("LAYER_".toList ++ (name.toList ++ (body ++ rest)))).dropWhile Text.isBlank =
      "LAYER_".toList ++ (name.toList ++ (body ++ rest)) := by
    rw [dropWhile_append_of_pos hb]
    exact (Text.takeWhile_stops (by simp [hlt])).2
  obtain ⟨first, h, hf⟩ := bodyApart
  have hbd : (body ++ rest).dropWhile Text.isBlank = body.dropWhile Text.isBlank ++ rest := by
    obtain ⟨c, hm, ho⟩ := hv
    rw [dropWhile_append, if_neg]
    intro he
    have ha := dropWhile_eq_nil_iff.mp (isEmpty_iff.mp he) c hm
    exact absurd (ho.symm.trans ha) (by decide)
  have hwr : word? (name.toList ++ (body ++ rest)) = some (name, body ++ rest) := by
    refine word?_append hn fun c hh => ?_
    rw [head?_append_of_ne_nil _ (by rintro rfl; cases h)] at hh
    obtain rfl : first = c := Option.some.inj (h.symm.trans hh)
    by_contra hw
    exact absurd ((Text.isBlank_of_isWordChar (by simpa using hw)).symm.trans hf) (by decide)
  have hs : (body.dropWhile Text.isBlank).length < body.length := by
    cases body with
    | nil => cases h
    | cons c body =>
      obtain rfl : c = first := Option.some.inj h
      rw [dropWhile_cons, if_pos hf]
      exact Nat.lt_succ_of_le (dropWhile_suffix _).length_le
  have hg : 0 < gap.length := length_pos_of_ne_nil apart
  rw [definition?, after?_append]
  simp only [Option.bind_eq_bind, Option.bind_some, hl, after?_append, hwr, hbd, length_append]
  rw [if_neg (by omega), if_neg (by omega)]
  rfl

theorem replace_layer (h : Text.Lacks "LAYER_".toList name.toList) :
    Text.replace "LAYER_" "" ("LAYER_" ++ name) = name := by
  have cut : Text.replaceFrom "LAYER_".toList [] 0 ("LAYER_".toList ++ name.toList) =
      Text.replaceFrom "LAYER_".toList [] 0 name.toList := by
    simp [Text.replaceFrom]
  rw [← String.toList_inj, Text.replace, if_neg (by simp), String.toList_ofList, String.toList_append, String.toList_empty,
    cut, Text.replaceFrom_of_lacks h]

theorem definitionsFrom_length (cs rest : List Char) :
    definitionsFrom cs.length (cs ++ rest) = definitionsFrom 0 rest := by
  induction cs with
  | nil => rfl
  | cons c cs ih => rw [length_cons, cons_append, definitionsFrom, ih]

theorem definition?_layer (hm : IsMacro cs name keys) (rest : List Char) :
    ∃ tail body, cs = '#' :: tail ∧ definition? (cs ++ rest) = some ("LAYER_" ++ name, body ++ rest) ∧ Body body ∧
      bodyKeys body = keys.map Key.unified := by
  cases hm with
  | @mk gap body _ _ hb ha hnm hba hn h =>
    refine ⟨"define".toList ++ (gap ++ ("LAYER_".toList ++ (name.toList ++ body))), body.dropWhile Text.isBlank, by simp, ?_,
      (h.isBody (plain_texts hn)).dropWhile, bodyKeys_of_lists hn h⟩
    simp only [append_assoc]
    exact definition?_append hb ha hnm hba (exists_visible hn h)

theorem definitionsFrom_layer (hm : IsMacro cs name keys) (hl : Text.Lacks "LAYER_".toList name.toList)
    (he : AtLineEnd rest) :
    definitionsFrom 0 (cs ++ rest) = (name, keys.map Key.unified) :: definitionsFrom 0 rest := by
  obtain ⟨tail, body, rfl, h, hb, hk⟩ := definition?_layer hm rest
  have hs : (tail ++ rest).length - ((body ++ rest).length - body.length) = tail.length := by
    simp only [length_append]
    omega
  rw [cons_append] at h ⊢
  rw [definitionsFrom, h]
  simp only [bodyLength_append hb he, replace_layer hl, take_left, hk, hs]
  rw [definitionsFrom_length]

theorem definition?_eq_none (hl : ¬ "#define".toList <+: cs) : definition? cs = none := by
  have h : after? "#define" cs = none := by
    rw [after?, if_neg fun hh => hl <| isPrefixOf_iff_prefix.mp hh]
  rw [definition?, h]
  rfl

theorem definitionsFrom_of_lacks (h : Text.Lacks "#define".toList cs) : definitionsFrom 0 cs = [] := by
  induction cs with
  | nil => rfl
  | cons c cs ih =>
    rw [definitionsFrom, definition?_eq_none fun hh => h hh.isInfix]
    exact ih fun hw => h (infix_cons hw)

theorem definitionsFrom_line (h : Text.Lacks "#define".toList cs) :
    definitionsFrom 0 (cs ++ '\n' :: rest) = definitionsFrom 0 rest := by
  induction cs with
  | nil => rw [nil_append, definitionsFrom, definition?_eq_none (by simp)]
  | cons c cs ih =>
    have ha : ¬ "#define".toList <+: c :: (cs ++ '\n' :: rest) := by
      rw [← cons_append, Text.prefix_append_cons (by decide)]
      exact fun hh => h hh.isInfix
    rw [cons_append, definitionsFrom, definition?_eq_none ha]
    exact ih fun hw => h (infix_cons hw)

/-- The text of a header and the layers that it defines. Other lines define nothing. -/
inductive Defines : List Char → List (String × List Key) → Prop
  | done {cs : List Char} (lacks : Text.Lacks "#define".toList cs) : Defines cs []
  | other {cs rest : List Char} {macros : List (String × List Key)} (lacks : Text.Lacks "#define".toList cs)
      (others : Defines rest macros) : Defines (cs ++ '\n' :: rest) macros
  | layer {cs rest : List Char} {name : String} {keys : List Key} {macros : List (String × List Key)}
      (isMacro : IsMacro cs name keys) (ends : AtLineEnd rest) (others : Defines rest macros) :
    Defines (cs ++ rest) ((name, keys) :: macros)

section Headers

variable {macros : List (String × List Key)}

def unifiedLayer (layer : String × List Key) : String × List String :=
  (layer.1, layer.2.map Key.unified)

theorem Defines.definitionsFrom (hd : Defines cs macros)
    (hl : ∀ layer ∈ macros, Text.Lacks "LAYER_".toList layer.1.toList) :
    Header.definitionsFrom 0 cs = macros.map unifiedLayer := by
  induction hd with
  | done h => exact definitionsFrom_of_lacks h
  | other h _ ih => rw [definitionsFrom_line h, ih hl]
  | layer hm he _ ih =>
    obtain ⟨own, ho⟩ := forall_mem_cons.mp hl
    rw [definitionsFrom_layer hm own he, ih ho]
    rfl

theorem Defines.layers {header : String} (h : Defines header.toList macros)
    (hd : (macros.map Prod.fst).Nodup) (hl : ∀ layer ∈ macros, Text.Lacks "LAYER_".toList layer.1.toList) :
    Header.layers header = macros.map unifiedLayer := by
  rw [Header.layers, h.definitionsFrom hl, assignAll_of_nodup, nil_append]
  rw [nil_append, map_map]
  exact hd

theorem Defines.named (h : Defines cs macros) :
    ∀ layer ∈ macros, IsName layer.1 ∧ ∀ key ∈ layer.2, key.Named := by
  induction h with
  | done => simp
  | other _ _ ih => exact ih
  | layer hm _ _ ih =>
    cases hm with
    | mk _ _ hn _ hnm => exact forall_mem_cons.mpr ⟨⟨hn, hnm⟩, ih⟩

end Headers

end Macros

end Header

end Keymap
