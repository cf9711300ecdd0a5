import Keymap.Document.Access
import Mathlib.Data.List.Infix

namespace Keymap.Yaml

open List

def isBreak (c : Char) : Bool := c == '\n' || c == '\r'

def isWhite (c : Char) : Bool := c == ' ' || c == '\t'

def escapes : List (Char × Char) :=
  [('0', '\x00'), ('a', '\x07'), ('b', '\x08'), ('t', '\t'), ('\t', '\t'), ('n', '\n'), ('v', '\x0b'), ('f', '\x0c'),
    ('r', '\r'), ('e', '\x1b'), (' ', ' '), ('"', '"'), ('/', '/'), ('\\', '\\'), ('N', '\u0085'), ('_', '\u00a0'),
    ('L', '\u2028'), ('P', '\u2029')]

def numberLengths : List (Char × Nat) :=
  [('x', 2), ('u', 4), ('U', 8)]

def hexDigit? (c : Char) : Option Nat :=
  if c.isDigit then some (c.toNat - '0'.toNat)
  else if 'a' ≤ c.toLower && c.toLower ≤ 'f' then some (c.toLower.toNat - 'a'.toNat + 10)
  else none

/-- Where a reader stands within a scalar. On a `line` it holds back blanks, which do not count if the line ends
there. After line ends it holds back what they stand for. -/
inductive Place where
  | line (blanks : List Char)
  | broken (joint : List Char) (returned : Bool)
  | escaped
  | numbered (digits value : Nat)

namespace Place

/-- One line end is a blank, and each further one is a line feed. -/
def lengthened (joint : List Char) : List Char :=
  if joint = [' '] then ['\n'] else joint ++ ['\n']

def content (held : List Char) (c : Char) : Option (List Char × Place) :=
  if c == '\\' then some (held, escaped)
  else if c == '"' || c < ' ' then none
  else some (held ++ [c], line [])

def inLine (blanks : List Char) (c : Char) : Option (List Char × Place) :=
  if isBreak c then some ([], broken [' '] (c == '\r'))
  else if isWhite c then some ([], line (blanks ++ [c]))
  else content blanks c

/-- A carriage return and a line feed are one line end. -/
def inBreaks (joint : List Char) (returned : Bool) (c : Char) : Option (List Char × Place) :=
  if returned && c == '\n' then some ([], broken joint false)
  else if isBreak c then some ([], broken (lengthened joint) (c == '\r'))
  else if isWhite c then some ([], broken joint false)
  else content joint c

def inEscape (c : Char) : Option (List Char × Place) :=
  if isBreak c then some ([], broken [] (c == '\r'))
  else match escapes.lookup c with
    | some d => some ([d], line [])
    | none => (numberLengths.lookup c).map fun digits => ([], numbered digits 0)

def inNumber (digits value : Nat) (c : Char) : Option (List Char × Place) := do
  let value := 16 * value + (← hexDigit? c)
  if 1 < digits then some ([], numbered (digits - 1) value)
  else if value.isValidChar then some ([Char.ofNat value], line [])
  else none

def step : Place → Char → Option (List Char × Place)
  | line blanks, c => inLine blanks c
  | broken joint returned, c => inBreaks joint returned c
  | escaped, c => inEscape c
  | numbered digits value, c => inNumber digits value c

def steps : Place → List Char → Option (List Char × Place)
  | place, [] => some ([], place)
  | place, c :: cs => do
    let (out, place) ← place.step c
    let (more, place) ← place.steps cs
    return (out ++ more, place)

def held? : Place → Option (List Char)
  | line blanks => some blanks
  | broken joint _ => some joint
  | escaped | numbered .. => none

end Place

def unquoted (raw : List Char) : Option (List Char) := do
  let (out, place) ← Place.steps (.line []) raw
  return out ++ (← place.held?)

/-- Characters that stand for themselves. -/
def IsPlain (c : Char) : Prop :=
  c ∉ ['"', '\\'] ∧ (c = '\t' ∨ ' ' ≤ c)

instance (c : Char) : Decidable (IsPlain c) :=
  inferInstanceAs (Decidable (_ ∧ _))

def weight : List Char → Nat
  | [] => 0
  | c :: cs => (if isBreak c then 3 else 2) + weight cs

@[simp] theorem weight_append (cs ds : List Char) : weight (cs ++ ds) = weight cs + weight ds := by
  induction cs with
  | nil => simp [weight]
  | cons c cs ih => simp [weight, ih, Nat.add_assoc]

theorem weight_le_of_isPrefix {cs ds : List Char} (front : cs <+: ds) : weight cs ≤ weight ds := by
  obtain ⟨rest, rfl⟩ := front
  simp

namespace Place

variable {place next : Place} {out cs held : List Char} {c : Char}

/-- An upper bound for what is still to come from the characters already read. -/
def due : Place → Nat
  | line blanks => weight blanks
  | broken joint _ => weight joint
  | escaped | numbered .. => 1

theorem content_cases (h : content held c = some (out, next)) :
    (IsPlain c ∧ out = held ++ [c] ∧ next = line []) ∨ c = '\\' ∧ out = held ∧ next = escaped := by
  unfold content at h
  split at h
  · rename_i hs
    obtain ⟨rfl, rfl⟩ := Prod.mk.inj (Option.some.inj h)
    exact .inr ⟨by simpa using hs, rfl, rfl⟩
  · rename_i hs
    split at h
    · cases h
    · rename_i ho
      obtain ⟨rfl, rfl⟩ := Prod.mk.inj (Option.some.inj h)
      simp only [beq_iff_eq, Bool.or_eq_true, decide_eq_true_eq, not_or, Char.not_lt] at hs ho
      exact .inl ⟨⟨by simp [hs, ho.1], .inr ho.2⟩, rfl, rfl⟩

theorem weight_le_three (c : Char) : weight [c] ≤ 3 := by
  simp only [weight]
  split <;> omega

theorem two_le_weight (c : Char) : 2 ≤ weight [c] := by
  simp only [weight]
  split <;> omega

theorem weight_of_isBreak (h : isBreak c) : weight [c] = 3 := by
  simp [weight, h]

/-- On a line a character stands for itself, or something is lost. -/
theorem inLine_cases {blanks : List Char} (h : inLine blanks c = some (out, next)) :
    (IsPlain c ∧ ∃ later, next = line later ∧ out ++ later = blanks ++ [c]) ∨
      weight out + next.due < weight blanks + weight [c] := by
  unfold inLine at h
  split at h
  · rename_i he
    obtain ⟨rfl, rfl⟩ := Prod.mk.inj (Option.some.inj h)
    refine .inr ?_
    rw [weight_of_isBreak he]
    simp [weight, due, isBreak]
  · split at h
    · rename_i hw
      obtain ⟨rfl, rfl⟩ := Prod.mk.inj (Option.some.inj h)
      have hp : IsPlain c := by
        simp only [isWhite, Bool.or_eq_true, beq_iff_eq] at hw
        rcases hw with rfl | rfl <;> decide
      exact .inl ⟨hp, _, rfl, rfl⟩
    · rcases content_cases h with ⟨hp, rfl, rfl⟩ | ⟨rfl, rfl, rfl⟩
      · exact .inl ⟨hp, [], rfl, append_nil _⟩
      · exact .inr (by simp [weight, due, isBreak])

theorem weight_lengthened (joint : List Char) : weight (lengthened joint) ≤ weight joint + 3 := by
  unfold lengthened
  split
  · rename_i h
    simp [h, weight, isBreak]
  · simp [weight, isBreak]

theorem inBreaks_weight {joint : List Char} {returned : Bool} (h : inBreaks joint returned c = some (out, next)) :
    weight out + next.due ≤ weight joint + weight [c] := by
  have hl := two_le_weight c
  unfold inBreaks at h
  split at h
  · obtain ⟨rfl, rfl⟩ := Prod.mk.inj (Option.some.inj h)
    simp only [due, weight]
    omega
  · split at h
    · rename_i he
      obtain ⟨rfl, rfl⟩ := Prod.mk.inj (Option.some.inj h)
      rw [weight_of_isBreak he]
      simpa [due, weight] using weight_lengthened joint
    · split at h
      · obtain ⟨rfl, rfl⟩ := Prod.mk.inj (Option.some.inj h)
        simp only [due, weight]
        omega
      · rcases content_cases h with ⟨-, rfl, rfl⟩ | ⟨rfl, rfl, rfl⟩
        · simp [due, weight]
        · simp only [due]
          omega

theorem inEscape_weight (h : inEscape c = some (out, next)) : weight out + next.due ≤ 1 + weight [c] := by
  have hl := two_le_weight c
  unfold inEscape at h
  split at h
  · obtain ⟨rfl, rfl⟩ := Prod.mk.inj (Option.some.inj h)
    simp only [due, weight]
    omega
  · split at h
    · rename_i d _
      obtain ⟨rfl, rfl⟩ := Prod.mk.inj (Option.some.inj h)
      have hm := weight_le_three d
      simp only [due, weight] at hm hl ⊢
      omega
    · obtain ⟨digits, -, hn⟩ := Option.map_eq_some_iff.mp h
      obtain ⟨rfl, rfl⟩ := Prod.mk.inj hn
      simp only [due, weight]
      omega

theorem inNumber_weight {digits value : Nat} (h : inNumber digits value c = some (out, next)) :
    weight out + next.due ≤ 1 + weight [c] := by
  have hl := two_le_weight c
  obtain ⟨digit, -, h⟩ := Option.bind_eq_some_iff.mp h
  simp only at h
  split at h
  · obtain ⟨rfl, rfl⟩ := Prod.mk.inj (Option.some.inj h)
    simp only [due, weight]
    omega
  · split at h
    · obtain ⟨rfl, rfl⟩ := Prod.mk.inj (Option.some.inj h)
      have hm := weight_le_three (Char.ofNat (16 * value + digit))
      simp only [due, weight] at hm hl ⊢
      omega
    · cases h

/-- No character stands for more than itself. -/
theorem step_weight (h : place.step c = some (out, next)) : weight out + next.due ≤ place.due + weight [c] := by
  cases place with
  | line blanks =>
    rcases inLine_cases h with ⟨-, later, rfl, hs⟩ | hl
    · have he := congrArg weight hs
      simp only [weight_append] at he
      exact Nat.le_of_eq he
    · exact Nat.le_of_lt hl
  | broken joint returned => exact inBreaks_weight h
  | escaped => exact inEscape_weight h
  | numbered digits value => exact inNumber_weight h

theorem steps_cons : place.steps (c :: cs) = some (out, next) ↔
    ∃ first middle rest, place.step c = some (first, middle) ∧ middle.steps cs = some (rest, next) ∧
      first ++ rest = out := by
  simp [steps, Option.bind_eq_some_iff]

theorem steps_of_append {ds : List Char} (h : place.steps (cs ++ ds) = some (out, next)) :
    ∃ first middle rest, place.steps cs = some (first, middle) ∧ middle.steps ds = some (rest, next) ∧
      first ++ rest = out := by
  induction cs generalizing place out with
  | nil => exact ⟨[], place, out, rfl, h, rfl⟩
  | cons c cs ih =>
    obtain ⟨here, after, later, hh, hl, rfl⟩ := steps_cons.mp h
    obtain ⟨first, middle, rest, hf, hr, rfl⟩ := ih hl
    exact ⟨here ++ first, middle, rest, steps_cons.mpr ⟨here, after, first, hh, hf, rfl⟩, hr, append_assoc ..⟩

theorem steps_weight (h : place.steps cs = some (out, next)) : weight out + next.due ≤ place.due + weight cs := by
  induction cs generalizing place out with
  | nil =>
    obtain ⟨rfl, rfl⟩ := Prod.mk.inj (Option.some.inj h)
    simp [weight]
  | cons c cs ih =>
    obtain ⟨here, after, later, hh, hl, rfl⟩ := steps_cons.mp h
    have hf := step_weight hh
    have hr := ih hl
    rw [weight_append, ← singleton_append (l := cs), weight_append]
    omega

theorem steps_line {blanks : List Char} (h : steps (line blanks) cs = some (out, next)) :
    ((∀ c ∈ cs, IsPlain c) ∧ ∃ later, next = line later ∧ out ++ later = blanks ++ cs) ∨
      weight out + next.due < weight blanks + weight cs := by
  induction cs generalizing blanks out with
  | nil =>
    obtain ⟨rfl, rfl⟩ := Prod.mk.inj (Option.some.inj h)
    exact .inl ⟨by simp, blanks, rfl, by simp⟩
  | cons c cs ih =>
    obtain ⟨here, after, later, hh, hl, rfl⟩ := steps_cons.mp h
    rw [weight_append, ← singleton_append (l := cs), weight_append, ← append_assoc blanks]
    rcases inLine_cases hh with ⟨hp, held, rfl, hs⟩ | hls
    · have he := congrArg weight hs
      rw [weight_append, weight_append] at he
      rcases ih hl with ⟨ho, last, rfl, hsm⟩ | hls
      · refine .inl ⟨forall_mem_cons.mpr ⟨hp, ho⟩, last, rfl, ?_⟩
        rw [append_assoc, hsm, ← append_assoc, hs]
      · exact .inr (by omega)
    · have hr := steps_weight hl
      exact .inr (by omega)

theorem step_of_plain (hp : IsPlain c) (blanks : List Char) :
    ∃ out later, step (line blanks) c = some (out, line later) ∧ out ++ later = blanks ++ [c] := by
  obtain ⟨own, hpr⟩ := hp
  simp only [mem_cons, not_mem_nil, or_false, not_or] at own
  by_cases h : isWhite c
  · have hi : isBreak c = false := by
      simp only [isWhite, Bool.or_eq_true, beq_iff_eq] at h
      rcases h with rfl | rfl <;> rfl
    exact ⟨[], _, by simp [step, inLine, hi, h], rfl⟩
  · have hv : ' ' ≤ c := hpr.resolve_left fun tab => h (by simp [isWhite, tab])
    have hi : isBreak c = false := by
      by_contra he
      simp only [isBreak, Bool.not_eq_false, Bool.or_eq_true, beq_iff_eq] at he
      rcases he with rfl | rfl <;> exact absurd hv (by decide)
    exact ⟨blanks ++ [c], [], by simp [step, inLine, hi, h, content, own, hv], append_nil _⟩

theorem steps_of_plain (h : ∀ c ∈ cs, IsPlain c) (blanks : List Char) :
    ∃ out later, steps (line blanks) cs = some (out, line later) ∧ out ++ later = blanks ++ cs := by
  induction cs generalizing blanks with
  | nil => exact ⟨[], blanks, rfl, by simp⟩
  | cons c cs ih =>
    rw [forall_mem_cons] at h
    obtain ⟨here, held, hh, hs⟩ := step_of_plain h.1 blanks
    obtain ⟨out, later, hd, hsm⟩ := ih h.2 held
    refine ⟨here ++ out, later, steps_cons.mpr ⟨here, _, out, hh, hd, rfl⟩, ?_⟩
    rw [append_assoc, hsm, ← append_assoc, hs, append_assoc]
    rfl

theorem escaped_of_step_quote (h : place.step '"' = some (out, next)) : place = escaped ∧ out = ['"'] := by
  cases place with
  | line blanks => exact absurd h (by simp [step, inLine, isBreak, isWhite, content])
  | broken joint returned => exact absurd h (by simp [step, inBreaks, isBreak, isWhite, content])
  | escaped => exact ⟨rfl, (Prod.mk.inj (Option.some.inj h)).1.symm⟩
  | numbered digits value => exact absurd h (by simp [step, inNumber, hexDigit?])

end Place

variable {raw value front : List Char}

theorem unquoted_eq_some : unquoted raw = some value ↔
    ∃ out place held, Place.steps (.line []) raw = some (out, place) ∧ place.held? = some held ∧ out ++ held = value := by
  simp [unquoted, Option.bind_eq_some_iff]

theorem Place.due_of_held {place : Place} {held : List Char} (h : place.held? = some held) :
    place.due = weight held := by
  cases place <;> cases h <;> rfl

theorem unquoted_plain (hp : ∀ c ∈ raw, IsPlain c) : unquoted raw = some raw := by
  obtain ⟨out, later, h, hs⟩ := Place.steps_of_plain hp []
  exact unquoted_eq_some.mpr ⟨out, _, later, h, rfl, hs⟩

/-- A text that its quoted form begins with stands for itself. -/
theorem plain_of_unquoted (hd : unquoted raw = some value) (hb : raw <+: value) :
    value = raw ∧ ∀ c ∈ raw, IsPlain c := by
  obtain ⟨out, place, held, hr, h, rfl⟩ := unquoted_eq_some.mp hd
  have hm := weight_le_of_isPrefix hb
  rw [weight_append] at hm
  rcases Place.steps_line hr with ⟨hp, later, rfl, hs⟩ | hl
  · obtain rfl := Option.some.inj h
    exact ⟨hs, hp⟩
  · rw [Place.due_of_held h] at hl
    simp only [weight] at hl
    omega

/-- A quotation mark within a quoted form is escaped, and so is not where it would be if the text before it stood
for itself. -/
theorem not_unquoted_of_quote {more : List Char} (own : '"' ∉ front) (hb : front <+: value) :
    unquoted (front ++ '"' :: more) ≠ some value := by
  intro hd
  obtain ⟨out, place, held, hr, -, rfl⟩ := unquoted_eq_some.mp hd
  obtain ⟨before, middle, after, hbf, ha, rfl⟩ := Place.steps_of_append hr
  obtain ⟨mark, next, rest, hm, -, rfl⟩ := Place.steps_cons.mp ha
  obtain ⟨rfl, rfl⟩ := Place.escaped_of_step_quote hm
  have hl := Place.steps_weight hbf
  simp only [Place.due, weight] at hl
  have hmr : before ++ ['"'] <+: before ++ (['"'] ++ rest) ++ held := by
    rw [← append_assoc, append_assoc]
    exact prefix_append _ _
  rcases prefix_or_prefix_of_prefix hb hmr with h | hln
  · rcases prefix_concat_iff.mp h with rfl | h
    · exact own (by simp)
    · have hms := weight_le_of_isPrefix h
      omega
  · exact own (hln.subset (by simp))

/-- If what is quoted up to the first quotation mark begins the text that is meant, then it is that text, and the
quotation mark ends it. -/
theorem closed_at_quote {more more' : List Char} (own : '"' ∉ front) (hb : front <+: value)
    (hs : front ++ '"' :: more = raw ++ '"' :: more') (hd : unquoted raw = some value) :
    (value = front ∧ ∀ c ∈ front, IsPlain c) ∧ more = more' := by
  rcases append_eq_append_iff.mp hs with ⟨between, rfl, h⟩ | ⟨between, rfl, h⟩
  · cases between with
    | nil =>
      rw [append_nil] at hd
      exact ⟨plain_of_unquoted hd hb, (cons.inj h).2⟩
    | cons c between =>
      obtain ⟨rfl, -⟩ := cons.inj h
      exact absurd hd (not_unquoted_of_quote own hb)
  · cases between with
    | nil =>
      rw [append_nil] at hb own ⊢
      exact ⟨plain_of_unquoted hd hb, (cons.inj h).2.symm⟩
    | cons c between =>
      obtain ⟨rfl, -⟩ := cons.inj h
      exact absurd (by simp) own

end Keymap.Yaml
