import Keymap.Proofs.Assignments
import Keymap.Proofs.Devicetree
import Keymap.Proofs.Outcome

namespace Keymap.Template

open Devicetree List

variable {field cs rest start : List Char} {fuel depth : Nat} {fields : List (List Char × List Char)}

def written (start : List Char) : List (List Char × List Char) → List Char
  | [] => start
  | (field, next) :: rest => start ++ '{' :: (field ++ '}' :: written next rest)

def filled (args : List (String × Document)) (start : List Char) :
    List (List Char × List Char) → Result (List Char)
  | [] => .ok start
  | (field, next) :: rest =>
    match args.lookup (String.ofList field) with
    | none => .error (.missing (String.ofList field))
    | some d => (filled args next rest).map fun cs => start ++ (d.toText.toList ++ cs)

def isFieldChar (c : Char) : Bool :=
  c.isAlpha || c == '_'

def isText (cs : List Char) : Bool :=
  cs.all fun c => c != '{' && c != '}'

def isWritten (start : List Char) : List (List Char × List Char) → Bool
  | [] => isText start
  | (field, next) :: rest =>
    isText start && !field.isEmpty && field.all isFieldChar && isWritten next rest

variable {args : List (String × Document)}

theorem expandFrom_text (h : isText cs) : expandFrom args (depth + 1) (fuel + cs.length) (cs ++ rest) =
      (expandFrom args (depth + 1) fuel rest).map (cs ++ ·) := by
  induction cs with
  | nil =>
    change expandFrom args (depth + 1) fuel rest = Except.map id _
    cases expandFrom args (depth + 1) fuel rest <;> rfl
  | cons c cs ih =>
    rw [isText, all_cons, Bool.and_eq_true_iff] at h
    obtain ⟨h, hl⟩ := h
    have hs : expandFrom args (depth + 1) (fuel + cs.length + 1) (c :: (cs ++ rest)) =
        (expandFrom args (depth + 1) (fuel + cs.length) (cs ++ rest)).map (c :: ·) := by
      simp only [bne_iff_ne, ne_eq, Bool.and_eq_true] at h
      obtain ⟨ho, hc⟩ := h
      rw [expandFrom]
      all_goals simp_all
    rw [length_cons, ← Nat.add_assoc, cons_append, hs, ih hl]
    cases expandFrom args (depth + 1) fuel rest <;> rfl

theorem isFieldChar_cases {c : Char} (hf : isFieldChar c) :
    c ≠ '{' ∧ c ≠ '}' ∧ c ≠ ':' ∧ c ≠ '!' ∧ c ≠ '.' ∧ c ≠ '[' ∧ Text.isDecimal c = false := by
  have hs : c.toNat < 128 := Text.lt_of_isIdentifierChar (by
    simp only [isFieldChar, Bool.or_eq_true] at hf
    simp only [Text.isIdentifierChar, Char.isAlphanum, Bool.or_eq_true]
    tauto)
  have all : ∀ n < 128, isFieldChar (Char.ofNat n) →
      Char.ofNat n ≠ '{' ∧ Char.ofNat n ≠ '}' ∧ Char.ofNat n ≠ ':' ∧ Char.ofNat n ≠ '!' ∧
        Char.ofNat n ≠ '.' ∧ Char.ofNat n ≠ '[' ∧ Text.isDecimal (Char.ofNat n) = false := by decide
  have h := all c.toNat hs
  rw [Char.ofNat_toNat] at h
  exact h hf

def IsName (field : List Char) : Prop :=
  (∀ c ∈ field, c ∉ ['{', '}', ':', '!', '.', '[']) ∧ ∃ c ∈ field, Text.isDecimal c = false

instance (field : List Char) : Decidable (IsName field) :=
  decidable_of_iff (field.all (fun c => !(['{', '}', ':', '!', '.', '['].contains c)) &&
    field.any fun c => !Text.isDecimal c) (by simp [IsName])

theorem isName_of_fieldChars (present : field ≠ []) (hf : field.all isFieldChar) : IsName field := by
  have h : ∀ c ∈ field, isFieldChar c := all_eq_true.mp hf
  constructor
  · intro c hmm
    obtain ⟨ho, hc, hcl, hm, hp, hb, -⟩ := isFieldChar_cases (h c hmm)
    simp [ho, hc, hcl, hm, hp, hb]
  · obtain ⟨c, rest, rfl⟩ := exists_cons_of_ne_nil present
    exact ⟨c, mem_cons_self, (isFieldChar_cases (h c mem_cons_self)).2.2.2.2.2.2⟩

theorem slotName_field (hp : ∀ c ∈ field, c ∉ ['{', '}', ':', '!', '.', '[']) :
    slotName false (field ++ '}' :: rest) = .ok (field, some '}', rest) := by
  induction field with
  | nil => rfl
  | cons c field ih =>
    obtain ⟨h, hl⟩ := forall_mem_cons.mp hp
    simp only [mem_cons, not_mem_nil, or_false, not_or] at h
    obtain ⟨ho, hc, hcl, hm, -, hb⟩ := h
    have hi : (c == '[') = false := by simpa using hb
    rw [cons_append, slotName]
    simp only [ho, hc, hcl, hm, beq_iff_eq, Bool.false_eq_true, if_false, Bool.or_eq_true, or_self, hi, ih hl]
    rfl

theorem lookup_field (hn : IsName field) :
    lookup args field = match args.lookup (String.ofList field) with
      | none => .error (.missing (String.ofList field))
      | some d => .ok d := by
  obtain ⟨hpl, c, h, hnd⟩ := hn
  have hc : ∀ c ∈ field, (c != '.' && c != '[') := by
    intro c h
    have hp := hpl c h
    simp only [mem_cons, not_mem_nil, or_false, not_or] at hp
    simp [hp]
  have hw : field.takeWhile (fun c => c != '.' && c != '[') = field := takeWhile_eq_self_iff.mpr hc
  have hnt : field.dropWhile (fun c => c != '.' && c != '[') = [] := dropWhile_eq_nil_iff.mpr hc
  have hps : position? field = .ok none := by
    rw [position?, if_neg]
    intro hdg
    have hd := all_eq_true.mp (Bool.and_eq_true_iff.mp hdg).2 c h
    rw [hnd] at hd
    cases hd
  have hnm : (field.isEmpty || (none : Option Nat).isSome) = false := by
    simpa using ne_nil_of_mem h
  unfold lookup
  simp only [hw, hnt, hps]
  change (if (field.isEmpty || (none : Option Nat).isSome) = true then _ else _ : Result Document) = _
  rw [hnm]
  change (match args.lookup (String.ofList field) with
    | none => Except.error (Fault.missing (String.ofList field))
    | some d => walk field.length d []) = _
  cases args.lookup (String.ofList field) with
  | none => rfl
  | some d => cases field <;> rfl

theorem expandFrom_field (h : IsName field) :
    expandFrom args (depth + 1) (fuel + 1) ('{' :: (field ++ '}' :: rest)) =
      match args.lookup (String.ofList field) with
      | none => .error (.missing (String.ofList field))
      | some d => (expandFrom args (depth + 1) fuel rest).map (d.toText.toList ++ ·) := by
  have hs : slot (field ++ '}' :: rest) = .ok ({ name := field }, rest) := by
    rw [slot, slotName_field h.1]
    rfl
  obtain ⟨c, cs, rfl⟩ := exists_cons_of_ne_nil (ne_nil_of_mem h.2.choose_spec.1)
  have ho : c ≠ '{' := by
    rintro rfl
    exact h.1 _ mem_cons_self mem_cons_self
  rw [cons_append, expandFrom]
  · rw [← cons_append, hs]
    change (do
      let d ← convert (← lookup args (c :: cs)) none
      let shown ← Format.value (String.ofList []) d
      return shown.toList ++ (← expandFrom args (depth + 1) fuel rest)) = _
    rw [lookup_field h]
    cases args.lookup (String.ofList (c :: cs)) with
    | none => rfl
    | some d =>
      change (expandFrom args (depth + 1) fuel rest >>= fun cs => .ok (d.toText.toList ++ cs)) = _
      cases expandFrom args (depth + 1) fuel rest <;> rfl
  · simpa using ho
  · simp

theorem expandFrom_written (hp : isWritten start fields) (h : (written start fields).length < fuel) :
    expandFrom args (depth + 1) fuel (written start fields) = filled args start fields := by
  induction fields generalizing start fuel with
  | nil =>
    obtain ⟨more, rfl⟩ := Nat.exists_eq_add_of_lt h
    have ht : expandFrom args (depth + 1) (more + 1 + start.length) (start ++ []) =
        (expandFrom args (depth + 1) (more + 1) []).map (start ++ ·) := expandFrom_text hp
    rw [append_nil] at ht
    rw [written, Nat.add_assoc, Nat.add_comm start.length, ht]
    simp [expandFrom, filled, Except.map]
  | cons part rest ih =>
    obtain ⟨field, next⟩ := part
    simp only [isWritten, Bool.and_eq_true] at hp
    obtain ⟨⟨⟨hpl, hpr⟩, hf⟩, hl⟩ := hp
    have hpr : field ≠ [] := by simpa using hpr
    rw [written] at h ⊢
    obtain ⟨more, rfl⟩ : ∃ more, fuel = more + 1 + start.length := by
      refine ⟨fuel - start.length - 1, ?_⟩
      simp only [length_append, length_cons] at h
      omega
    rw [expandFrom_text hpl, expandFrom_field (isName_of_fieldChars hpr hf), ih hl, filled]
    · cases args.lookup (String.ofList field) with
      | none => rfl
      | some d => cases filled args next rest <;> rfl
    · simp only [length_append, length_cons] at h
      omega

def isApart (start : List Char) : List (List Char × List Char) → Bool
  | [] => true
  | (_, next) :: rest =>
    !endsOpen start && startsApart next && (rest.isEmpty || !next.isEmpty) && isApart next rest

theorem startsApart_filled (h : startsApart start) (hp : fields = [] ∨ start ≠ []) :
    Yields (filled args start fields) fun cs => startsApart cs := by
  cases fields with
  | nil => exact .ok h
  | cons part rest =>
    obtain ⟨c, cs, rfl⟩ := exists_cons_of_ne_nil (hp.resolve_left (by simp))
    rw [filled]
    split
    · exact .error
    · exact .map fun text _ => h

theorem filled_within {known : String → Prop} (h : isApart start fields)
    (ht : ∀ text ∈ start :: fields.map (·.2), Within known (String.ofList text))
    (arguments : ∀ arg ∈ args, Within known arg.2.toText) :
    Yields (filled args start fields) fun cs => Within known (String.ofList cs) := by
  induction fields generalizing start with
  | nil => exact .ok (ht start mem_cons_self)
  | cons part rest ih =>
    obtain ⟨field, next⟩ := part
    rw [isApart, Bool.and_eq_true_iff, Bool.and_eq_true_iff, Bool.and_eq_true_iff] at h
    obtain ⟨⟨⟨hc, hs⟩, hp⟩, hl⟩ := h
    rw [filled]
    split
    · exact .error
    · rename_i d hf
      have ho := ih hl fun text hm => ht text (mem_cons_of_mem _ hm)
      have h : Yields (filled args next rest) fun cs => startsApart cs := by
        apply startsApart_filled hs
        simpa using hp
      apply Yields.map
      intro cs hd
      have ha := arguments _ (mem_of_lookup hf)
      have htl := ha.append (ho cs hd) (.inr (by simpa using h cs hd))
      have all := (ht start mem_cons_self).append htl (.inl (by simpa using hc))
      change Within known (String.ofList (start ++ (d.toText.toList ++ cs)))
      rwa [String.ofList_append, String.ofList_append, String.ofList_toList]

theorem expand_within {known : String → Prop} (hp : isWritten start fields) (h : isApart start fields)
    (ht : ∀ text ∈ start :: fields.map (·.2), Within known (String.ofList text))
    (ha : ∀ arg ∈ args, Within known arg.2.toText) :
    Yields (expand (String.ofList (written start fields)) args) (Within known) := by
  rw [expand, String.toList_ofList, expandFrom_written hp]
  · exact .map (filled_within h ht ha)
  · rw [String.length_ofList]
    omega

/-- Whether a template is made of plain characters, doubled braces and fields with one of these names.
Within a field, what has been read of its name comes first, last character first. -/
def mentionsOnly (names : List String) : Option (List Char) → List Char → Bool
  | none, [] => true
  | none, '{' :: '{' :: cs => mentionsOnly names none cs
  | none, '{' :: cs => mentionsOnly names (some []) cs
  | none, '}' :: '}' :: cs => mentionsOnly names none cs
  | none, '}' :: _ => false
  | none, _ :: cs => mentionsOnly names none cs
  | some _, [] => false
  | some field, '}' :: cs => names.contains (String.ofList field.reverse) && mentionsOnly names none cs
  | some field, c :: cs => mentionsOnly names (some (c :: field)) cs

section Mentions

variable {names : List String}

theorem exists_field (h : mentionsOnly names (some field) cs) :
    ∃ more rest, cs = more ++ '}' :: rest ∧ String.ofList (field.reverse ++ more) ∈ names ∧
      mentionsOnly names none rest := by
  induction cs generalizing field with
  | nil => cases h
  | cons c cs ih =>
    by_cases hc : c = '}'
    · subst hc
      rw [mentionsOnly, Bool.and_eq_true_iff] at h
      exact ⟨[], cs, rfl, by simpa using h.1, h.2⟩
    · rw [mentionsOnly] at h
      · obtain ⟨more, rest, rfl, hn, hl⟩ := ih h
        exact ⟨c :: more, rest, rfl, by simpa using hn, hl⟩
      · simpa using hc

theorem expandFrom_ok (hp : ∀ name ∈ names, IsName name.toList)
    (hg : ∀ name ∈ names, ∃ d, args.lookup name = some d) (h : mentionsOnly names none cs)
    (he : cs.length < fuel) : ∃ out, expandFrom args (depth + 1) fuel cs = .ok out := by
  induction fuel generalizing cs with
  | zero => omega
  | succ fuel ih =>
    cases cs with
    | nil => exact ⟨[], by rw [expandFrom]⟩
    | cons c cs =>
      rw [length_cons] at he
      by_cases ho : c = '{'
      · subst ho
        by_cases hdb : ∃ rest, cs = '{' :: rest
        · obtain ⟨rest, rfl⟩ := hdb
          rw [mentionsOnly] at h
          obtain ⟨out, hd⟩ := ih h (by simp at he; omega)
          exact ⟨'{' :: out, by rw [expandFrom, hd]; rfl⟩
        · rw [mentionsOnly] at h
          · obtain ⟨field, rest, rfl, hn, hl⟩ := exists_field h
            rw [reverse_nil, nil_append] at hn
            obtain ⟨d, hf⟩ := hg _ hn
            obtain ⟨out, hd⟩ := ih hl (by simp at he; omega)
            have hfl : IsName field := by simpa using hp _ hn
            exact ⟨d.toText.toList ++ out, by rw [expandFrom_field hfl, hf, hd]; rfl⟩
          · exact fun rest hs => hdb ⟨rest, hs⟩
      · by_cases hc : c = '}'
        · subst hc
          cases cs with
          | nil => cases h
          | cons c' rest =>
            by_cases hdb : c' = '}'
            · subst hdb
              rw [mentionsOnly] at h
              obtain ⟨out, hd⟩ := ih h (by simp at he; omega)
              exact ⟨'}' :: out, by rw [expandFrom, hd]; rfl⟩
            · rw [mentionsOnly] at h
              · cases h
              · simpa using hdb
        · rw [mentionsOnly] at h
          · obtain ⟨out, hd⟩ := ih h (by omega)
            refine ⟨c :: out, ?_⟩
            rw [expandFrom, hd]
            · rfl
            all_goals simp_all
          all_goals simp_all

theorem expand_ok (hp : ∀ name ∈ names, IsName name.toList)
    (hg : ∀ name ∈ names, ∃ d, args.lookup name = some d) {template : String}
    (hm : mentionsOnly names none template.toList) : ∃ text, expand template args = .ok text := by
  obtain ⟨out, h⟩ : ∃ out, expandFrom args 2 (template.length + 1) template.toList = .ok out :=
    expandFrom_ok hp hg hm (by rw [String.length_toList]; omega)
  exact ⟨String.ofList out, by rw [expand, h]; rfl⟩

end Mentions

end Keymap.Template
