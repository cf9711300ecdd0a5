import Keymap.Proofs.Assignments
import Keymap.Proofs.CodeLines
import Keymap.Proofs.Enumerations
import Keymap.Proofs.Outcome
import Keymap.Zmk.Properties
import Mathlib.Algebra.Ring.Int.Defs
import Mathlib.Algebra.Ring.Nat

namespace Keymap

open List

namespace Decimal

theorem digit_facts {c : Char} (h : c.isDigit) : Text.decimalValue? c = some (c.toNat - '0'.toNat) ∧
    Text.isDecimal c ∧ Text.isBlank c = false ∧ c ∉ ['_', '-', '+', '<', '>', '=', ';', '"'] := by
  have all : ∀ n < 58, (Char.ofNat n).isDigit →
      Text.decimalValue? (Char.ofNat n) = some ((Char.ofNat n).toNat - '0'.toNat) ∧
      Text.isDecimal (Char.ofNat n) ∧ Text.isBlank (Char.ofNat n) = false ∧
      Char.ofNat n ∉ ['_', '-', '+', '<', '>', '=', ';', '"'] := by decide +kernel
  have own := all c.toNat
  rw [Char.ofNat_toNat] at own
  have hs : c.toNat ≤ '9'.toNat := by
    simp only [Char.isDigit, Bool.and_eq_true, decide_eq_true_eq] at h
    exact UInt32.le_iff_toNat_le.mp h.2
  exact own (Nat.lt_succ_of_le hs) h

theorem readDigits_digits {ds : List Char} (h : ∀ c ∈ ds, c.isDigit) {value : Nat} {begun : Bool}
    (hp : ds ≠ [] ∨ begun) : readDigits? value begun ds = some (Nat.ofDigitChars 10 ds value) := by
  induction ds generalizing value begun with
  | nil =>
    obtain rfl := hp.resolve_left (· rfl)
    rfl
  | cons c ds ih =>
    rw [forall_mem_cons] at h
    obtain ⟨hv, -, -, ho⟩ := digit_facts h.1
    have hu : (c == '_') = false := beq_eq_false_iff_ne.mpr (by rintro rfl; exact ho (by decide))
    rw [readDigits?, hu, hv, Nat.ofDigitChars_cons]
    exact ih h.2 (.inr rfl)

/-- A whole number as it is written: a sign if it is negative, and digits. -/
theorem toString_int (n : Int) : ∃ sign, (sign = [] ∧ 0 ≤ n ∨ sign = ['-'] ∧ n < 0) ∧
    (toString n).toList = sign ++ Nat.toDigits 10 n.natAbs := by
  cases n with
  | ofNat n => exact ⟨[], .inl ⟨rfl, Int.natCast_nonneg n⟩, by simp [Int.toString_eq_repr, Int.repr]⟩
  | negSucc n => exact ⟨['-'], .inr ⟨rfl, Int.negSucc_lt_zero n⟩, by simp [Int.toString_eq_repr, Int.repr]⟩

theorem digits_natAbs (n : Int) : ∀ c ∈ Nat.toDigits 10 n.natAbs, c.isDigit :=
  fun _ h => Nat.isDigit_of_mem_toDigits (by decide) (by decide) h

theorem readSigned_toString (n : Int) : readSigned? (toString n).toList = some n := by
  obtain ⟨sign, hs, hc⟩ := toString_int n
  have hv : readDigits? 0 false (Nat.toDigits 10 n.natAbs) = some n.natAbs := by
    rw [readDigits_digits (digits_natAbs n) (.inl Nat.toDigits_ne_nil), Nat.ofDigitChars_ten_toDigits]
  rw [hc]
  rcases hs with ⟨rfl, hp⟩ | ⟨rfl, hn⟩
  · have hu : ∀ c ∈ Nat.toDigits 10 n.natAbs, c ≠ '-' ∧ c ≠ '+' := by
      intro c hm
      have ho := (digit_facts (digits_natAbs n c hm)).2.2.2
      exact ⟨by rintro rfl; exact ho (by decide), by rintro rfl; exact ho (by decide)⟩
    rw [nil_append]
    unfold readSigned?
    split
    · rename_i h
      exact absurd rfl (hu '-' (h ▸ mem_cons_self)).1
    · rename_i h
      exact absurd rfl (hu '+' (h ▸ mem_cons_self)).2
    · rw [hv]
      exact congrArg some (Int.natAbs_of_nonneg hp)
  · rw [singleton_append, readSigned?, hv]
    have hb : -(n.natAbs : Int) = n := by omega
    exact congrArg some hb

theorem visible_toString (n : Int) : ∀ c ∈ (toString n).toList, Text.isBlank c = false ∧
    c ∉ ['<', '>', '=', ';', '"'] := by
  obtain ⟨sign, hs, h⟩ := toString_int n
  rw [h, forall_mem_append]
  refine ⟨?_, fun c hm => ?_⟩
  · rcases hs with ⟨rfl, -⟩ | ⟨rfl, -⟩
    · exact forall_mem_nil _
    · exact forall_mem_singleton.mpr (by decide)
  · obtain ⟨-, -, hv, ho⟩ := digit_facts (digits_natAbs n c hm)
    exact ⟨hv, fun hl => ho (mem_cons_of_mem _ (mem_cons_of_mem _ (mem_cons_of_mem _ hl)))⟩

theorem trim_toString (n : Int) : Text.trim (toString n) = toString n :=
  Text.trim_of_visible (fun c h => (visible_toString n c (mem_of_mem_head? h)).1)
    fun c hl => (visible_toString n c (mem_of_mem_getLast? hl)).1

/-- A whole number can be read back if it has no more digits than reading allows. -/
theorem readInt_toString (n : Int) : (n.natAbs < 10 ^ longest → readInt (toString n) = .ok n) ∧
    (¬ n.natAbs < 10 ^ longest → ∃ cause, readInt (toString n) = .error cause) := by
  have hd : ((toString n).toList.filter Text.isDecimal).length = (Nat.toDigits 10 n.natAbs).length := by
    obtain ⟨sign, hsg, hc⟩ := toString_int n
    have hsn : sign.filter Text.isDecimal = [] := by rcases hsg with ⟨rfl, -⟩ | ⟨rfl, -⟩ <;> decide
    rw [hc, filter_append, hsn, nil_append,
      filter_eq_self.mpr fun c hm => (digit_facts (digits_natAbs n c hm)).2.1]
  have hs := Nat.length_toDigits_le_iff (b := 10) (n := n.natAbs) (k := longest) (by decide) (by decide)
  unfold readInt
  rw [trim_toString, readSigned_toString, hd]
  dsimp only
  constructor
  · intro h
    rw [if_neg (Nat.not_lt.mpr (hs.mpr h))]
  · intro hl
    rw [if_pos (Nat.lt_of_not_le fun h => hl (hs.mp h))]
    exact ⟨_, rfl⟩

end Decimal

namespace Zmk

section Scanning

variable {α : Type} {after : List Char → Option (α × List Char)} {c stop : Char} {cs rest : List Char}

variable {mark : Char}

/-- All names of a text with what follows them; names may have hyphens. -/
def scanned (after : List Char → Option (α × List Char)) (cs : List Char) : List (String × α) :=
  scanNames isNameChar after cs.length cs

/-- What is left behind a name and its value is the end of what followed the name. -/
def Consumes (after : List Char → Option (α × List Char)) : Prop :=
  ∀ cs a rest, after cs = some (a, rest) → rest <:+ cs

theorem scanNames_fuel (hc : Consumes after) {n m : Nat} (h : cs.length ≤ n) (he : cs.length ≤ m) :
    scanNames isNameChar after n cs = scanNames isNameChar after m cs := by
  induction n generalizing m cs with
  | zero =>
    obtain rfl := eq_nil_of_length_eq_zero (Nat.le_zero.mp h)
    cases m <;> rfl
  | succ n ih =>
    cases cs with
    | nil => cases m <;> rfl
    | cons c cs =>
      cases m with
      | zero => cases he
      | succ m =>
        have hs : cs.length ≤ n ∧ cs.length ≤ m := by simpa using And.intro h he
        rw [scanNames, scanNames]
        split
        · rename_i hn
          have hi : ((c :: cs).dropWhile isNameChar).length ≤ cs.length := by
            rw [dropWhile_cons_of_pos hn]
            exact (dropWhile_suffix _).length_le
          dsimp only
          split
          · rename_i more hf
            have := (hc _ _ _ hf).length_le
            exact congrArg (cons _) (ih (by omega) (by omega))
          · exact ih (by omega) (by omega)
        · exact ih hs.1 hs.2

theorem scanned_other (h : isNameChar c = false) : scanned after (c :: cs) = scanned after cs := by
  rw [scanned, length_cons, scanNames, h]
  rfl

theorem scanned_others {before : List Char} (h : (before.all fun c => !isNameChar c)) :
    scanned after (before ++ cs) = scanned after cs := by
  induction before with
  | nil => rfl
  | cons c before ih =>
    rw [all_cons, Bool.and_eq_true, Bool.not_eq_true'] at h
    rw [cons_append, scanned_other h.1, ih h.2]

theorem scanned_name (h : Consumes after) {name : List Char} (hp : name ≠ [])
    (hn : ∀ c ∈ name, isNameChar c) (he : ∀ c ∈ rest.head?, isNameChar c = false) :
    scanned after (name ++ rest) =
      (after rest).elim (scanned after rest) fun r => (String.ofList name, r.1) :: scanned after r.2 := by
  have hf : (name ++ rest).takeWhile isNameChar = name ∧ (name ++ rest).dropWhile isNameChar = rest := by
    rw [takeWhile_append_of_pos hn, dropWhile_append_of_pos hn]
    cases rest with
    | nil => simp
    | cons d rest => simp [he d rfl]
  obtain ⟨c, name, rfl⟩ := exists_cons_of_ne_nil hp
  rw [cons_append] at hf ⊢
  rw [scanned, length_cons, scanNames, if_pos (hn c mem_cons_self), hf.1, hf.2]
  have hw : rest.length ≤ (name ++ rest).length := by simp
  dsimp only
  cases hfn : after rest with
  | some r =>
    have hs := (h _ _ _ hfn).length_le.trans hw
    exact congrArg (cons _) (scanNames_fuel h hs (Nat.le_refl _))
  | none => exact scanNames_fuel h hw (Nat.le_refl _)

/-- Only a certain mark, with blanks before it, can make a name count. -/
def Awaits (after : List Char → Option (α × List Char)) (mark : Char) : Prop :=
  ∀ cs, (skipBlanks cs).head? ≠ some mark → after cs = none

theorem head_skipBlanks (h : mark ∉ cs) (ho : stop ≠ mark) (hs : Text.isBlank stop = false) :
    (skipBlanks (cs ++ stop :: rest)).head? ≠ some mark := by
  induction cs with
  | nil => simpa [skipBlanks, hs] using ho
  | cons c cs ih =>
    rw [mem_cons, not_or] at h
    cases hb : Text.isBlank c with
    | true => simpa [skipBlanks, hb] using ih h.2
    | false => simpa [skipBlanks, hb] using Ne.symm h.1

/-- Nothing is found in a text without the mark, up to a character that is neither blank nor part of a name. -/
theorem scanned_silent (consumes : Consumes after) (awaits : Awaits after mark) (lacks : mark ∉ cs)
    (other : stop ≠ mark) (solid : Text.isBlank stop = false) (ends : isNameChar stop = false) :
    scanned after (cs ++ stop :: rest) = scanned after rest := by
  induction hs : cs.length using Nat.strongRecOn generalizing cs with
  | ind n ih =>
    cases cs with
    | nil => exact scanned_other ends
    | cons c tail =>
      cases hn : isNameChar c with
      | false =>
        rw [cons_append, scanned_other hn]
        exact ih tail.length (by simp [← hs]) (fun h => lacks (mem_cons_of_mem c h)) rfl
      | true =>
        have cut := takeWhile_append_dropWhile (p := isNameChar) (l := c :: tail)
        have hk : mark ∉ (c :: tail).dropWhile isNameChar := fun h =>
          lacks ((dropWhile_suffix _).subset h)
        have hb : ∀ d ∈ ((c :: tail).dropWhile isNameChar ++ stop :: rest).head?, isNameChar d = false := by
          cases hd : (c :: tail).dropWhile isNameChar with
          | nil => simpa using ends
          | cons d ds =>
            have hf := head?_dropWhile_not isNameChar (c :: tail)
            rw [hd] at hf
            simpa using hf
        rw [← cut, append_assoc, scanned_name consumes (by simp [hn]) (fun d h => mem_takeWhile_imp h)
          hb, awaits _ (head_skipBlanks hk other solid)]
        refine ih _ ?_ hk rfl
        rw [← hs, dropWhile_cons_of_pos hn, length_cons]
        exact Nat.lt_succ_of_le (dropWhile_suffix _).length_le

end Scanning

section Values

variable {opening closing : Char} {cs rest : List Char}

theorem upTo_suffix {value : String} (h : upTo closing cs = some (value, rest)) : rest <:+ cs := by
  unfold upTo at h
  dsimp only at h
  split at h
  · rename_i hl
    cases h
    exact (suffix_cons _ _).trans (hl ▸ dropWhile_suffix _)
  · cases h

theorem upTo_written {value : List Char} (hp : value ≠ []) (hl : closing ∉ value) (rest : List Char) :
    upTo closing (value ++ closing :: rest) = some (String.ofList value, rest) := by
  have h : ∀ c ∈ value, (c != closing) := fun c hm =>
    bne_iff_ne.mpr fun hs => hl (hs ▸ hm)
  unfold upTo
  rw [takeWhile_append_of_pos h, dropWhile_append_of_pos h]
  obtain ⟨c, value, rfl⟩ := exists_cons_of_ne_nil hp
  simp

theorem consumes_value (opening closing : Char) : Consumes (valueAfterName opening closing) := by
  intro cs value rest h
  unfold valueAfterName at h
  split at h
  · rename_i more hmr
    split at h
    · rename_i c left hl
      split at h
      · have hm : left <:+ more := (suffix_cons c left).trans (hl ▸ dropWhile_suffix _)
        have ht : more <:+ cs := (suffix_cons '=' more).trans (hmr ▸ dropWhile_suffix _)
        exact ((upTo_suffix h).trans hm).trans ht
      · cases h
    · cases h
  · cases h

theorem awaits_value (opening closing : Char) : Awaits (valueAfterName opening closing) '=' := by
  intro cs h
  unfold valueAfterName
  split
  · rename_i hm
    rw [hm] at h
    exact absurd rfl h
  · rfl

theorem consumes_semicolon : Consumes semicolonAfterName := by
  intro cs value rest h
  unfold semicolonAfterName at h
  split at h
  · rename_i hr
    cases h
    exact (suffix_cons ';' rest).trans (hr ▸ dropWhile_suffix _)
  · cases h

theorem awaits_semicolon : Awaits semicolonAfterName ';' := by
  intro cs h
  unfold semicolonAfterName
  split
  · rename_i hm
    rw [hm] at h
    exact absurd rfl h
  · rfl

end Values

def valueMarks : List (Char × Char) :=
  [('<', '>'), ('"', '"')]

/-- The marks around the value of a property, and the value between them. -/
def Property.written? : Property → Option ((Char × Char) × String)
  | .number value => some (('<', '>'), value.toText)
  | .cells content => some (('<', '>'), content)
  | .text value => some (('"', '"'), value.toText)
  | .flag => none

def Property.valueIn (marks : Char × Char) (p : Property) : Option String :=
  p.written?.bind fun w => if w.1 = marks then some w.2 else none

def isPropertyName (name : String) : Bool :=
  match name.toList with
  | [] => false
  | c :: cs => c.isAlpha && cs.all fun d => Text.isIdentifierChar d || d == '-'

def IsValue (s : String) : Prop :=
  s ≠ "" ∧ ∀ c ∈ s.toList, c ∉ ['<', '>', '=', ';', '"']

instance (s : String) : Decidable (IsValue s) :=
  decidable_of_iff (s ≠ "" ∧ s.toList.all fun c => !(['<', '>', '=', ';', '"'].contains c)) (by simp [IsValue])

/-- Properties that a block can state. -/
def Writable (name : String) (p : Property) : Prop :=
  isPropertyName name = true ∧ match p with
    | .number value => ∃ n : Int, value = .whole n
    | .cells text => IsValue text ∧ Text.trim text = text ∧ ∀ n, Decimal.readInt text ≠ .ok n
    | .text value => ∃ s, value = .text s ∧ IsValue s
    | .flag => name ∉ ["compatible", "label", "bindings"]

section Lines

variable {name : String} {p : Property} {marks : Char × Char}

variable {value : String}

theorem Writable.isValue (hw : Writable name p) {w : (Char × Char) × String} (h : p.written? = some w) :
    IsValue w.2 ∧ w.1 ∈ valueMarks := by
  cases p with
  | number value =>
    obtain ⟨-, n, rfl⟩ := hw
    cases h
    refine ⟨⟨fun he => ?_, fun c hm => (Decimal.visible_toString n c hm).2⟩, by simp [valueMarks]⟩
    obtain ⟨sign, -, hc⟩ := Decimal.toString_int n
    have hn : toString n = "" := he
    rw [hn] at hc
    exact Nat.toDigits_ne_nil (append_eq_nil_iff.mp hc.symm).2
  | cells text =>
    cases h
    exact ⟨hw.2.1, by simp [valueMarks]⟩
  | text value =>
    obtain ⟨-, s, rfl, hv⟩ := hw
    cases h
    exact ⟨hv, by simp [valueMarks]⟩
  | flag => cases h

theorem chars_of_isPropertyName (h : isPropertyName name) :
    ∃ c cs, name.toList = c :: cs ∧ c.isAlpha ∧ ∀ d ∈ cs, Text.isIdentifierChar d ∨ d = '-' := by
  unfold isPropertyName at h
  split at h
  · cases h
  · rename_i c cs hc
    exact ⟨c, cs, hc, by simpa using h⟩

theorem isNameChar_of_isPropertyName (hn : isPropertyName name) : name.toList ≠ [] ∧
    ∀ c ∈ name.toList, isNameChar c := by
  obtain ⟨c, cs, h, hl, ho⟩ := chars_of_isPropertyName hn
  have hf : Text.isIdentifierChar c := by rw [Text.isIdentifierChar, Char.isAlphanum, hl]; rfl
  rw [h, forall_mem_cons]
  refine ⟨cons_ne_nil _ _, ?_, fun d hm => ?_⟩
  · rw [isNameChar, Code.isWordChar_of_isIdentifierChar hf, Bool.true_or]
  · rcases ho d hm with hw | rfl
    · rw [isNameChar, Code.isWordChar_of_isIdentifierChar hw, Bool.true_or]
    · rfl

variable {α : Type} {after : List Char → Option (α × List Char)} {rest : List Char}

theorem scanned_line (h : Consumes after) (hn : isPropertyName name)
    (he : ∀ c ∈ rest.head?, isNameChar c = false) :
    scanned after ((Text.spaces 12).toList ++ (name.toList ++ rest)) =
      (after rest).elim (scanned after rest) fun r => (name, r.1) :: scanned after r.2 := by
  obtain ⟨hp, hnm⟩ := isNameChar_of_isPropertyName hn
  rw [scanned_others (by decide), scanned_name h hp hnm he, String.ofList_toList]

/-- What stands behind the name of a property that has a value. -/
def valued (marks : Char × Char) (value : String) (rest : List Char) : List Char :=
  " = ".toList ++ marks.1 :: (value.toList ++ marks.2 :: ';' :: rest)

theorem scanned_valued (consumes : Consumes after) {mark : Char} (awaits : Awaits after mark)
    (isMark : mark ∈ ['=', ';']) (isValue : IsValue value) (isMarks : marks ∈ valueMarks)
    (rest : List Char) : scanned after (valued marks value rest) = scanned after rest := by
  have hl : mark ∉ value.toList := fun hmm => isValue.2 mark hmm (by
    rcases mem_pair.mp isMark with rfl | rfl <;> decide)
  have h : isNameChar marks.1 = false ∧ marks.2 ≠ mark ∧ Text.isBlank marks.2 = false ∧
      isNameChar marks.2 = false := by
    rcases mem_pair.mp isMark with rfl | rfl <;> rcases mem_pair.mp isMarks with rfl | rfl <;> decide
  rw [valued, scanned_others (by decide), scanned_other h.1,
    scanned_silent consumes awaits hl h.2.1 h.2.2.1 h.2.2.2, scanned_other (by decide)]

theorem valueAfterName_valued (hv : IsValue value) (hm : marks ∈ valueMarks)
    (rest : List Char) : valueAfterName marks.1 marks.2 (valued marks value rest) = some (value, ';' :: rest) := by
  have hp : value.toList ≠ [] := fun he => hv.1 (String.toList_eq_nil_iff.mp he)
  have hl : marks.2 ∉ value.toList := fun hmm => hv.2 _ hmm (by
    rcases mem_pair.mp hm with rfl | rfl <;> decide)
  have h := upTo_written hp hl (';' :: rest)
  rw [String.ofList_toList] at h
  rcases mem_pair.mp hm with rfl | rfl <;> exact h

theorem valueAfterName_other {marks' : Char × Char} (hm : marks ∈ valueMarks) (ho : marks' ∈ valueMarks)
    (h : marks ≠ marks') (value : String) (rest : List Char) :
    valueAfterName marks.1 marks.2 (valued marks' value rest) = none := by
  rcases mem_pair.mp hm with rfl | rfl <;> rcases mem_pair.mp ho with rfl | rfl
  · exact absurd rfl h
  · rfl
  · rfl
  · exact absurd rfl h

theorem toList_line (name : String) (p : Property) (rest : List Char) :
    (Text.spaces 12 ++ p.statement name).toList ++ rest = (Text.spaces 12).toList ++ (name.toList ++
      p.written?.elim (';' :: rest) fun w => valued w.1 w.2 rest) := by
  cases p <;> simp [Property.statement, Property.written?, valued, toString]

theorem scanned_values (hm : marks ∈ valueMarks) (hw : Writable name p) (rest : List Char) :
    scanned (valueAfterName marks.1 marks.2) ((Text.spaces 12 ++ p.statement name).toList ++ rest) =
      ((p.valueIn marks).map fun value => (name, value)).toList ++ scanned (valueAfterName marks.1 marks.2) rest := by
  have h := consumes_value marks.1 marks.2
  have ha := awaits_value marks.1 marks.2
  rw [toList_line, Property.valueIn]
  cases hwr : p.written? with
  | none =>
    have hf : (skipBlanks (';' :: rest)).head? = some ';' := rfl
    rw [Option.elim_none, scanned_line h hw.1 (by simp; decide), ha _ (by rw [hf]; decide)]
    exact scanned_other (by decide)
  | some w =>
    obtain ⟨hv, ho⟩ := hw.isValue hwr
    rw [Option.elim_some, scanned_line h hw.1 (by simp [valued]; decide)]
    by_cases hs : w.1 = marks
    · subst hs
      rw [valueAfterName_valued hv ho, Option.elim_some, scanned_other (by decide)]
      simp
    · rw [valueAfterName_other hm ho (Ne.symm hs), Option.elim_none, scanned_valued h ha (by decide) hv ho]
      simp [hs]

theorem scanned_flags (h : Writable name p) (rest : List Char) :
    scanned semicolonAfterName ((Text.spaces 12 ++ p.statement name).toList ++ rest) =
      (if p.written?.isNone then some (name, ()) else none).toList ++ scanned semicolonAfterName rest := by
  rw [toList_line]
  cases hw : p.written? with
  | none =>
    rw [Option.elim_none, scanned_line consumes_semicolon h.1 (by simp; decide)]
    rfl
  | some w =>
    obtain ⟨hv, ho⟩ := h.isValue hw
    have hf : (skipBlanks (valued w.1 w.2 rest)).head? = some '=' := rfl
    rw [Option.elim_some, scanned_line consumes_semicolon h.1 (by simp [valued]; decide),
      awaits_semicolon _ (by rw [hf]; decide), Option.elim_none,
      scanned_valued consumes_semicolon awaits_semicolon (by decide) hv ho]
    rfl

/-- The statements of properties, each on a line of its own. -/
def written (properties : Properties) : String :=
  Text.unlines (properties.map fun e => Text.spaces 12 ++ e.2.statement e.1)

variable {properties : Properties}

theorem scanned_lines {found : String × Property → Option (String × α)}
    (h : ∀ e ∈ properties, ∀ rest, scanned after ((Text.spaces 12 ++ e.2.statement e.1).toList ++ rest) =
      (found e).toList ++ scanned after rest) :
    scanned after (written properties).toList = properties.filterMap found := by
  induction properties with
  | nil => rfl
  | cons e properties ih =>
    rw [forall_mem_cons] at h
    have own : (e :: properties).filterMap found = (found e).toList ++ properties.filterMap found := by
      cases hf : found e <;> simp [hf]
    rw [own]
    cases properties with
    | nil =>
      have hl := h.1 []
      rw [append_nil] at hl
      exact hl
    | cons next properties =>
      rw [written, map_cons, map_cons, Text.unlines, String.intercalate_cons_cons, String.toList_append,
        String.toList_append, append_assoc, h.1, ← ih h.2]
      exact congrArg _ (scanned_other (c := '\n') (by decide))

theorem isLong_whole {n : Int} : isLong (.whole n) = false ↔ n.natAbs < 10 ^ Decimal.longest := by
  rw [isLong, decide_eq_false_iff_not, Nat.not_le]
  generalize Decimal.longest = digits
  rfl

theorem bracketedProperty_written (hw : Writable name p) (hs : p.isLong = false) (value : String)
    (h : p.valueIn ('<', '>') = some value) : bracketedProperty value = p := by
  cases p with
  | number v =>
    obtain ⟨-, n, rfl⟩ := hw
    cases h
    change bracketedProperty (toString n) = _
    rw [bracketedProperty, Decimal.trim_toString, (Decimal.readInt_toString n).1 (isLong_whole.mp hs)]
  | cells content =>
    cases h
    obtain ⟨-, -, ht, hu⟩ := hw
    rw [bracketedProperty, ht]
    cases hr : Decimal.readInt content with
    | ok n => exact absurd hr (hu n)
    | error => rfl
  | text v => cases h
  | flag => cases h

theorem text_written (hw : Writable name p) (value : String) (h : p.valueIn ('"', '"') = some value) :
    Property.text value = p := by
  cases p with
  | text v =>
    obtain ⟨-, s, rfl, -⟩ := hw
    cases h
    rfl
  | number | cells | flag => cases h

theorem filter_valued {read : String → Property}
    (hb : ∀ e ∈ properties, ∀ value, e.2.valueIn marks = some value → read value = e.2) :
    (properties.filterMap fun e => (e.2.valueIn marks).map fun value => (e.1, value)).map (fun r => (r.1, read r.2)) =
      properties.filter fun e => (e.2.valueIn marks).isSome := by
  rw [map_filterMap, ← filterMap_eq_filter]
  refine filterMap_congr fun e hm => ?_
  cases h : e.2.valueIn marks with
  | none => simp [Option.guard, h]
  | some value => simp [Option.guard, h, hb e hm value h]

theorem flags_written (writable : ∀ e ∈ properties, Writable e.1 e.2) :
    flags (written properties).toList = (properties.filter fun e => e.2.written?.isNone).map (·.1) := by
  have hf := scanned_lines fun e h rest => scanned_flags (writable e h) rest
  rw [flags]
  change (scanned _ _).filterMap _ = _
  rw [hf, filterMap_filterMap, ← filterMap_eq_filter, map_filterMap]
  refine filterMap_congr fun e h => ?_
  obtain ⟨c, cs, hc, hl, -⟩ := chars_of_isPropertyName (writable e h).1
  have ho : (c == '-') = false := beq_eq_false_iff_ne.mpr (by rintro rfl; cases hl)
  cases hw : e.2.written? with
  | some w => simp [Option.guard, hw]
  | none =>
    dsimp
    rw [hc, dropWhile_cons_of_neg (by rw [ho]; decide)]
    simp [Option.guard, hw, ← hc]

end Lines

theorem foldl_flags {start : Properties} {names : List String} (hf : ∀ n ∈ names, n ∉ start.map (·.1))
    (hd : names.Nodup) (h : ∀ n ∈ names, n ∉ ["compatible", "label", "bindings"]) :
    names.foldl (fun (acc : Properties) name => if (acc.lookup name).isSome ||
        ["compatible", "label", "bindings"].contains name then acc else acc ++ [(name, .flag)]) start =
      start ++ names.map fun name => (name, Property.flag) := by
  induction names generalizing start with
  | nil => rw [map_nil, append_nil]; rfl
  | cons name names ih =>
    rw [forall_mem_cons] at hf h
    rw [nodup_cons] at hd
    have ha : (start.lookup name).isSome = false := by
      rw [Bool.eq_false_iff, ne_eq, lookup_isSome_iff_mem]
      exact hf.1
    rw [foldl_cons, ha, Bool.false_or, if_neg (by simpa using h.1), ih ?_ hd.2 h.2, append_assoc]
    · rfl
    · intro n hm
      rw [map_append, mem_append, not_or]
      exact ⟨hf.2 n hm, fun hs => hd.1 ((mem_singleton.mp hs : n = name) ▸ hm)⟩

section Blocks

variable {properties : Properties}

variable {table : BehaviorTable} {behavior : String}

theorem Property.eq_flag {p : Property} (h : p.written?.isNone) : p = .flag := by
  cases p with
  | flag => rfl
  | number | cells | text => cases h

theorem perm_by_marks (properties : Properties) : (properties.filter fun e => (e.2.valueIn ('<', '>')).isSome) ++
      (properties.filter fun e => (e.2.valueIn ('"', '"')).isSome) ++
      properties.filter (fun e => e.2.written?.isNone) ~ properties := by
  induction properties with
  | nil => exact .nil
  | cons e properties ih =>
    obtain ⟨name, p⟩ := e
    cases p with
    | number | cells => exact ih.cons _
    | text => exact (perm_middle.append_right _).trans (ih.cons _)
    | flag => exact perm_middle.trans (ih.cons _)

theorem bracketed_written (hw : ∀ e ∈ properties, Writable e.1 e.2) : bracketed (written properties).toList =
      properties.filterMap fun e => (e.2.valueIn ('<', '>')).map fun value => (e.1, value) :=
  scanned_lines fun e h => @scanned_values e.1 e.2 ('<', '>') (by decide) (hw e h)

theorem quotedValues_written (hw : ∀ e ∈ properties, Writable e.1 e.2) :
    quotedValues (written properties).toList =
      properties.filterMap fun e => (e.2.valueIn ('"', '"')).map fun value => (e.1, value) :=
  scanned_lines fun e h => @scanned_values e.1 e.2 ('"', '"') (by decide) (hw e h)

/-- The three scans find the properties in brackets, those in quotation marks and those without a value. -/
theorem readProperties_written (hw : ∀ e ∈ properties, Writable e.1 e.2)
    (hs : ∀ e ∈ properties, e.2.isLong = false) (hd : (properties.map (·.1)).Nodup) :
    readProperties (written properties) = (properties.filter fun e => (e.2.valueIn ('<', '>')).isSome) ++
      (properties.filter fun e => (e.2.valueIn ('"', '"')).isSome) ++
      properties.filter fun e => e.2.written?.isNone := by
  have hd := ((perm_by_marks properties).map (·.1)).nodup_iff.mpr hd
  rw [map_append, nodup_append] at hd
  obtain ⟨hv, hp, ha⟩ := hd
  rw [← nil_append (_ ++ _)] at hv
  rw [readProperties]
  dsimp only
  rw [flags_written hw, bracketed_written hw, quotedValues_written hw,
    filter_valued fun e h => bracketedProperty_written (hw e h) (hs e h),
    filter_valued fun e h => text_written (hw e h), assignAll_of_nodup [] hv, nil_append,
    foldl_flags (fun n h hst => ha n hst n h rfl) hp (forall_mem_map.mpr fun e h => ?_), map_map]
  · refine congrArg (_ ++ ·) ((map_congr_left fun e h => ?_).trans (map_id _))
    exact Prod.ext rfl (Property.eq_flag (mem_filter.mp h).2).symm
  · have own := (hw e (mem_filter.mp h).1).2
    rwa [Property.eq_flag (mem_filter.mp h).2] at own

theorem stated_written (h : table.lookup behavior = some properties) :
    statedProperties table (.text behavior) .null = if properties.any (·.2.isLong) then .error unprintable
      else .ok (properties.map fun e => Text.spaces 12 ++ e.2.statement e.1) := by
  have kept (keep : String × Property → Result Properties) (h : ∀ e ∈ properties, keep e = .ok [e]) :
      properties.mapM keep = .ok (properties.map ([·])) :=
    mapM_eq_ok.mpr (forall₂_map_right_iff.mpr (forall₂_same.mpr h))
  have all : (properties.map ([·])).flatten = properties := by
    rw [← flatMap_def, flatMap_singleton']
  change (List.mapM (m := Result) _ ((table.lookup behavior).getD []) >>= _) = _
  rw [h, Option.getD_some, kept]
  · rw [ok_bind, all]
    split <;> rfl
  · exact fun e _ => rfl

theorem readProperties_long {name : String} (hn : isPropertyName name) {n : Int}
    (hl : ¬ n.natAbs < 10 ^ Decimal.longest) :
    readProperties (written [(name, .number (.whole n))]) = [(name, .cells (toString n))] := by
  have h : ∀ e ∈ [(name, Property.number (.whole n))], Writable e.1 e.2 := forall_mem_singleton.mpr ⟨hn, n, rfl⟩
  obtain ⟨cause, hu⟩ := (Decimal.readInt_toString n).2 hl
  have own : bracketedProperty (toString n) = .cells (toString n) := by
    rw [bracketedProperty, Decimal.trim_toString, hu]
  rw [readProperties]
  dsimp only
  rw [flags_written h, bracketed_written h, quotedValues_written h]
  have hv : (Document.whole n).toText = toString n := rfl
  simpa [Property.valueIn, Property.written?, assignAll, assign, hv] using own

/-- The properties of a behaviour, written as the statements of a block, are read back from that block.
They are written exactly if no number among them has too many digits. -/
theorem properties_read_back {table : BehaviorTable} {behavior : String} {properties : Properties}
    (found : table.lookup behavior = some properties) (distinct : (properties.map (·.1)).Nodup)
    (writable : ∀ e ∈ properties, Writable e.1 e.2) : ((∀ e ∈ properties, e.2.isLong = false) →
      ∃ lines read, statedProperties table (.text behavior) .null = .ok lines ∧
        propertiesOf (.text (Text.unlines lines)) = .ok read ∧ read ~ properties) ∧
    ((∃ e ∈ properties, e.2.isLong = true) →
      statedProperties table (.text behavior) .null = .error unprintable) := by
  rw [stated_written found]
  constructor
  · intro short
    rw [if_neg (by simpa using short)]
    refine ⟨_, _, rfl, rfl, ?_⟩
    change readProperties (written properties) ~ properties
    rw [readProperties_written writable short distinct]
    exact perm_by_marks properties
  · intro long
    rw [if_pos (any_eq_true.mpr long)]

end Blocks

def balancedTap : Properties :=
  [("flavor", .text "balanced"), ("retro-tap", .flag), ("tapping-term-ms", .number (.whole (-1))),
   ("hold-trigger-key-positions", .cells "5 6\n7"), ("quick-tap-ms", .number (.whole 175))]

theorem balancedTap_read_back : ∃ lines read, statedProperties [("hml", balancedTap)] "hml" .null = .ok lines ∧
    propertiesOf (.text (Text.unlines lines)) = .ok read ∧ read ~ balancedTap := by
  refine (properties_read_back rfl (by decide) ?_).1 ?_
  · simp only [balancedTap, Writable, forall_mem_cons, not_mem_nil, false_implies, implies_true, and_true]
    have unread : Decimal.readInt "5 6\n7" = .error .form := by decide
    exact ⟨⟨by decide, _, rfl, by decide⟩, by decide, ⟨by decide, _, rfl⟩,
      ⟨by decide, by decide, by decide, by simp [unread]⟩, by decide, _, rfl⟩
  · have short {n : Int} (small : n.natAbs < 10 ^ 3) : isLong (.whole n) = false :=
      isLong_whole.mpr (Nat.lt_of_lt_of_le small (Nat.pow_le_pow_right (by decide) (by decide)))
    simp only [balancedTap, Property.isLong, forall_mem_cons, not_mem_nil, false_implies, implies_true, and_true,
      true_and]
    exact ⟨rfl, short (by decide), short (by decide)⟩

/-- A number with too many digits is not written at all, and where a block has one, it is no number. -/
theorem long_number_not_stated :
    statedProperties [("lt", [("wait-ms", .number (.whole (10 ^ Decimal.longest)))])] "lt" .null =
      .error unprintable ∧
    propertiesOf (.text (written [("wait-ms", .number (.whole (10 ^ Decimal.longest)))])) =
      .ok [("wait-ms", .cells (toString (10 ^ Decimal.longest : Int)))] := by
  have same (k : Nat) : (10 ^ k : Int).natAbs = 10 ^ k := Int.natAbs_pow 10 k
  have many : ¬ (10 ^ Decimal.longest : Int).natAbs < 10 ^ Decimal.longest := by
    rw [same]
    exact Nat.lt_irrefl _
  have long : isLong (.whole (10 ^ Decimal.longest)) = true := by
    rwa [← Bool.not_eq_false, isLong_whole]
  constructor
  · refine (stated_written rfl).trans (if_pos ?_)
    exact any_eq_true.mpr ⟨_, mem_singleton_self _, long⟩
  · exact congrArg Except.ok (readProperties_long (by decide) many)

end Zmk

end Keymap
