import Keymap.Qmk.Magic
import Keymap.Proofs.Texts

namespace Keymap

open List

namespace Text

def IsWord (s : String) : Prop :=
  s ≠ "" ∧ ∀ c ∈ s.toList, isBlank c = false ∧ c ∉ [',', '=', '\x7b', '\x7d']

instance (s : String) : Decidable (IsWord s) :=
  decidable_of_iff (s ≠ "" ∧ s.toList.all fun c =>
    !isBlank c && !([',', '=', '\x7b', '\x7d'].contains c)) (by simp [IsWord])

structure IsPiece (s : String) : Prop where
  present : s ≠ ""
  first : ∀ c ∈ s.toList.head?, isBlank c = false
  last : ∀ c ∈ s.toList.getLast?, isBlank c = false
  plain : ∀ c ∈ s.toList, c ∉ [',', '=', '\x7b', '\x7d']

theorem IsWord.isPiece {s : String} (h : IsWord s) : IsPiece s where
  present := h.1
  first := fun c hf => (h.2 c (mem_of_mem_head? hf)).1
  last := fun c hl => (h.2 c (mem_of_mem_getLast? hl)).1
  plain := fun c hm => (h.2 c hm).2

variable {a b w : List Char}

theorem trimChars (blankBefore : ∀ c ∈ a, isBlank c) (hb : ∀ c ∈ b, isBlank c)
    (hf : ∀ c ∈ w.head?, isBlank c = false) (last : ∀ c ∈ w.getLast?, isBlank c = false) :
    trimEndChars isBlank (trimStartChars isBlank (a ++ w ++ b)) = w := by
  have hs : ∀ cs, trimStartChars isBlank (a ++ cs) = trimStartChars isBlank cs := by
    intro cs
    rw [trimStartChars, dropWhile_append_of_pos blankBefore]
    rfl
  have he : trimEndChars isBlank (w ++ b) = w := by
    rw [trimEndChars, reverse_append, dropWhile_append_of_pos fun c hm => hb c (mem_reverse.mp hm)]
    cases h : w.reverse with
    | nil => simpa using h.symm
    | cons c cs =>
      have hl : c ∈ w.getLast? := by
        rw [getLast?_eq_head?_reverse, h]
        rfl
      rw [dropWhile_cons_of_neg (by simp [last c hl]), ← h, reverse_reverse]
  rw [append_assoc, hs]
  cases hw : w with
  | nil =>
    have hd : trimStartChars isBlank b = [] := dropWhile_eq_nil_iff.mpr hb
    rw [nil_append, hd]
    rfl
  | cons c cs =>
    have hk : trimStartChars isBlank (c :: cs ++ b) = c :: cs ++ b := by
      apply dropWhile_cons_of_neg
      simp [hf c (by rw [hw]; rfl)]
    rw [hk, ← hw]
    exact he

theorem trim_of_visible {s : String} (hf : ∀ c ∈ s.toList.head?, isBlank c = false)
    (hl : ∀ c ∈ s.toList.getLast?, isBlank c = false) : trim s = s := by
  have h : ∀ c ∈ ([] : List Char), isBlank c := by simp
  have hw := trimChars h h hf hl
  rw [nil_append, append_nil] at hw
  rw [trim, trimBy, hw, String.ofList_toList]

end Text

namespace Qmk.Enumerator

variable {text : String} {combos magic : List String} {e : Enumerator} {mark : Char}
  {after before : List Char}

def body (text : String) : List Char :=
  ((text.toList.dropWhile (· != '\x7b')).drop 1).takeWhile (· != '\x7d')

def ofPiece (piece : String) : Enumerator :=
  match Text.split '=' piece with
  | name :: value :: _ => ⟨Text.trim name, some (Text.trim value)⟩
  | pieces => ⟨Text.trim (pieces.headD ""), none⟩

def readBody (cs : List Char) : List Enumerator :=
  let pieces := (Text.splitChars (· == ',') cs).filter fun piece => !piece.all Text.isBlank
  pieces.map fun piece => ofPiece (String.ofList piece)

def read (text : String) : List Enumerator :=
  readBody (body text)

def valuesFrom (symbol : String → Nat) (next : Nat) : List Enumerator → List (String × Nat)
  | [] => []
  | e :: rest =>
    let value := (e.value.map symbol).getD next
    (e.name, value) :: valuesFrom symbol (value + 1) rest

def values (symbol : String → Nat) (members : List Enumerator) : List (String × Nat) :=
  valuesFrom symbol 0 members

theorem body_between {inside : List Char}
    (ht : text.toList = before ++ '\x7b' :: inside ++ '\x7d' :: after) (unopened : '\x7b' ∉ before)
    (hu : '\x7d' ∉ inside) : body text = inside := by
  have hs : ∀ c ∈ before, (c != '\x7b') := by
    intro c h
    simpa using ne_of_mem_of_not_mem h unopened
  have hk : ∀ c ∈ inside, (c != '\x7d') := by
    intro c h
    simpa using ne_of_mem_of_not_mem h hu
  rw [body, ht, append_assoc, dropWhile_append_of_pos hs,
    cons_append, dropWhile_cons_of_neg (by simp), drop_succ_cons, drop_zero,
    takeWhile_append_of_pos hk, takeWhile_cons_of_neg (by simp), append_nil]

theorem readBody_append (a b : List Char) : readBody (a ++ ',' :: b) = readBody a ++ readBody b := by
  have cut : Text.splitChars (· == ',') (a ++ ',' :: b) =
      Text.splitChars (· == ',') a ++ Text.splitChars (· == ',') b :=
    Text.splitChars_append_cons rfl
  simp only [readBody, cut, filter_append, map_append]

def Padded (s : String) (cs : List Char) : Prop :=
  Text.IsPiece s ∧ ∃ a b, cs = a ++ s.toList ++ b ∧ (∀ c ∈ a, Text.isBlank c = true) ∧
    ∀ c ∈ b, Text.isBlank c = true

inductive Written : Enumerator → List Char → Prop
  | plain {name : String} {cs : List Char} (isName : Padded name cs) : Written ⟨name, none⟩ cs
  | valued {name value : String} {cs ds : List Char} (isName : Padded name cs)
      (isValue : Padded value ds) : Written ⟨name, some value⟩ (cs ++ '=' :: ds)

inductive WrittenAll : List Enumerator → List Char → Prop
  | none {cs : List Char} (blank : ∀ c ∈ cs, Text.isBlank c = true) : WrittenAll [] cs
  | last {e : Enumerator} {cs : List Char} (written : Written e cs) : WrittenAll [e] cs
  | cons {e : Enumerator} {cs ds : List Char} {rest : List Enumerator} (written : Written e cs)
      (others : WrittenAll rest ds) : WrittenAll (e :: rest) (cs ++ ',' :: ds)

namespace Padded

variable {s : String} {cs : List Char}

theorem trim (hp : Padded s cs) : Text.trim (String.ofList cs) = s := by
  obtain ⟨h, a, b, rfl, before, after⟩ := hp
  rw [Text.trim, Text.trimBy, String.toList_ofList,
    Text.trimChars before after h.first h.last, String.ofList_toList]

theorem noMark (hp : Padded s cs) (h : mark ∈ [',', '=', '\x7b', '\x7d']) : mark ∉ cs := by
  obtain ⟨hpc, a, b, rfl, before, after⟩ := hp
  have hv : Text.isBlank mark = false := by
    simp only [mem_cons, not_mem_nil, or_false] at h
    rcases h with rfl | rfl | rfl | rfl <;> decide
  rw [mem_append, mem_append]
  rintro ((hf | hw) | hb)
  · exact absurd ((before mark hf).symm.trans hv) (by decide)
  · exact hpc.plain mark hw h
  · exact absurd ((after mark hb).symm.trans hv) (by decide)

theorem splitChars_equals (h : Padded s cs) : Text.splitChars (· == '=') cs = [cs] :=
  Text.splitChars_of_not_mem (h.noMark (by decide))

theorem exists_solid (padded : Padded s cs) : ∃ c ∈ cs, Text.isBlank c = false := by
  obtain ⟨hp, a, b, rfl, -, -⟩ := padded
  cases h : s.toList with
  | nil => exact absurd (String.toList_eq_nil_iff.mp h) hp.present
  | cons c cs => exact ⟨c, by simp, hp.first c (by rw [h]; rfl)⟩

end Padded

namespace Written

variable {cs : List Char}

theorem noMark (hw : Written e cs) (hm : mark ∈ [',', '\x7b', '\x7d']) : mark ∉ cs := by
  simp only [mem_cons, not_mem_nil, or_false] at hm
  have h : mark ∈ [',', '=', '\x7b', '\x7d'] := by
    rcases hm with rfl | rfl | rfl <;> decide
  have hne : mark ≠ '=' := by
    rcases hm with rfl | rfl | rfl <;> decide
  cases hw with
  | plain hn => exact hn.noMark h
  | valued hn hv => simp [hn.noMark h, hv.noMark h, hne]

theorem exists_solid (hw : Written e cs) : ∃ c ∈ cs, Text.isBlank c = false := by
  cases hw with
  | plain h => exact h.exists_solid
  | valued h hv => exact ⟨'=', by simp, by decide⟩

theorem ofPiece_eq (hw : Written e cs) : ofPiece (String.ofList cs) = e := by
  cases hw with
  | plain h =>
    simp only [ofPiece, Text.split, String.toList_ofList, h.splitChars_equals, map_cons,
      map_nil, headD_cons, h.trim]
  | @valued name value cs ds h hv =>
    have cut : Text.splitChars (· == '=') (cs ++ '=' :: ds) = [cs, ds] := by
      rw [Text.splitChars_append_cons rfl, h.splitChars_equals, hv.splitChars_equals]
      rfl
    simp only [ofPiece, Text.split, String.toList_ofList, cut, map_cons, h.trim, hv.trim]

theorem readBody_eq (h : Written e cs) : readBody cs = [e] := by
  obtain ⟨c, hm, hs⟩ := h.exists_solid
  have hp : cs.all Text.isBlank = false := all_eq_false.mpr ⟨c, hm, by simp [hs]⟩
  rw [readBody, Text.splitChars_of_not_mem (h.noMark (by decide))]
  simp [hp, h.ofPiece_eq]

end Written

namespace WrittenAll

variable {members : List Enumerator} {cs : List Char}

theorem unclosed (h : WrittenAll members cs) : '\x7d' ∉ cs := by
  induction h with
  | none hb => exact fun hm => absurd (hb _ hm) (by decide)
  | last h => exact h.noMark (by decide)
  | cons h ho ih => simp [h.noMark (show '\x7d' ∈ [',', '\x7b', '\x7d'] by decide), ih]

theorem readBody_eq (h : WrittenAll members cs) : readBody cs = members := by
  induction h with
  | @none cs hb =>
    have hc : ',' ∉ cs := fun hm => absurd (hb _ hm) (by decide)
    rw [readBody, Text.splitChars_of_not_mem hc]
    simp [all_eq_true.mpr hb]
  | last h => exact h.readBody_eq
  | cons h ho ih => rw [readBody_append, h.readBody_eq, ih, singleton_append]

theorem read_eq (h : WrittenAll members cs)
    (ht : text.toList = before ++ '\x7b' :: cs ++ '\x7d' :: after) (hu : '\x7b' ∉ before) :
    read text = members := by
  rw [read, body_between ht hu h.unclosed, h.readBody_eq]

end WrittenAll

theorem written_render (h : Text.IsWord e.name) (hv : ∀ value, e.value = some value → Text.IsWord value) :
    Written e ('\n' :: e.render.toList) := by
  obtain ⟨name, value⟩ := e
  cases value with
  | none =>
    refine .plain ⟨h.isPiece, "\n    ".toList, [], ?_, all_eq_true.mp (by decide), by simp⟩
    simp [render, toString]
  | some value =>
    have hp : Padded name ("\n    ".toList ++ name.toList ++ [' ']) :=
      ⟨h.isPiece, _, _, rfl, all_eq_true.mp (by decide), all_eq_true.mp (by decide)⟩
    have hvl : Padded value ([' '] ++ value.toList ++ []) :=
      ⟨(hv value rfl).isPiece, _, _, rfl, all_eq_true.mp (by decide), by simp⟩
    have hw := Written.valued hp hvl
    simpa [render, toString] using hw

theorem writtenAll_render {rest : List Enumerator} (h : ∀ m ∈ e :: rest, Written m ('\n' :: m.render.toList)) :
    WrittenAll (e :: rest) ('\n' :: (Text.join ",\n" ((e :: rest).map render)).toList ++ [',', '\n']) := by
  induction rest generalizing e with
  | nil => exact .cons (h e mem_cons_self) (.none (all_eq_true.mp (by decide)))
  | cons next rest ih =>
    have ho := ih fun m hm => h m (mem_cons_of_mem _ hm)
    have hb := WrittenAll.cons (h e mem_cons_self) ho
    rw [map_cons, map_cons, Text.join, String.intercalate_cons_cons]
    simpa [Text.join] using hb

theorem isWord_customEnumerators (hw : ∀ name ∈ combos ++ magic, Text.IsWord name)
    (hm : e ∈ customEnumerators combos magic) :
    Text.IsWord e.name ∧ ∀ value, e.value = some value → Text.IsWord value := by
  cases combos with
  | nil =>
    obtain ⟨name, h, rfl⟩ := mem_map.mp hm
    exact ⟨hw name h, fun _ hn => nomatch hn⟩
  | cons first names =>
    rw [customEnumerators, numberedFrom, cons_append, ← map_append] at hm
    rcases mem_cons.mp hm with rfl | hl
    · refine ⟨hw first mem_cons_self, fun value hv => ?_⟩
      obtain rfl := Option.some.inj hv
      decide
    · obtain ⟨name, h, rfl⟩ := mem_map.mp hl
      exact ⟨hw name (mem_cons_of_mem _ h), fun _ hn => nomatch hn⟩

theorem read_customEnum (hw : ∀ name ∈ combos ++ magic, Text.IsWord name) :
    read (customEnum combos magic) = customEnumerators combos magic := by
  unfold customEnum
  split
  · rename_i hnn
    rw [hnn]
    rfl
  · rename_i members hp
    cases h : customEnumerators combos magic with
    | nil => exact absurd h hp
    | cons e rest =>
      have he : ∀ m ∈ e :: rest, Written m ('\n' :: m.render.toList) := by
        intro m hm
        obtain ⟨hn, hv⟩ := isWord_customEnumerators hw (h ▸ hm)
        exact written_render hn hv
      have ht : (Text.unlines ["", "enum magic_macros \x7b",
          Text.join ",\n" ((e :: rest).map render) ++ ",", "\x7d;", ""]).toList =
          "\nenum magic_macros ".toList ++ '\x7b' ::
            ('\n' :: (Text.join ",\n" ((e :: rest).map render)).toList ++ [',', '\n']) ++
            '\x7d' :: ";\n".toList := by
        simp [Text.unlines, String.intercalate_cons_cons]
      exact (writtenAll_render he).read_eq ht (by decide)

theorem valuesFrom_unvalued (symbol : String → Nat) (next : Nat) (names : List String) :
    valuesFrom symbol next (names.map fun n => ⟨n, none⟩) = names.zipIdx next := by
  induction names generalizing next with
  | nil => rfl
  | cons name names ih =>
    rw [map_cons, valuesFrom, zipIdx_cons]
    exact congrArg _ (ih (next + 1))

theorem values_customEnumerators (symbol : String → Nat) (combos magic : List String) :
    values symbol (customEnumerators combos magic) =
      (combos ++ magic).zipIdx (if combos = [] then 0 else symbol "SAFE_RANGE") := by
  cases combos with
  | nil => exact valuesFrom_unvalued symbol 0 magic
  | cons name names =>
    have h := valuesFrom_unvalued symbol (symbol "SAFE_RANGE" + 1) (names ++ magic)
    rw [map_append] at h
    rw [if_neg (cons_ne_nil name names), cons_append, zipIdx_cons, ← h]
    rfl

theorem values_customEnumerators_ge_iff {symbol : String → Nat} (hp : 0 < symbol "SAFE_RANGE")
    (combos magic : List String) :
    (∀ v ∈ values symbol (customEnumerators combos magic), symbol "SAFE_RANGE" ≤ v.2) ↔
      combos ≠ [] ∨ magic = [] := by
  rw [values_customEnumerators]
  by_cases h : combos = []
  · subst h
    cases magic with
    | nil => simp
    | cons name names =>
      -- Without a text combo, the first keycode of a magic text is zero.
      refine iff_of_false (fun hf => ?_) (by simp)
      have hfr := hf (name, 0) (by simp)
      omega
  · rw [if_neg h]
    refine iff_of_true (fun v hm => ?_) (.inl h)
    exact le_snd_of_mem_zipIdx hm

end Qmk.Enumerator

end Keymap
