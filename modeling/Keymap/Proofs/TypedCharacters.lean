import Keymap.Proofs.ExplicitKeys
import Keymap.Proofs.KeymapOutcomes
import Keymap.Standard

namespace Keymap.Zmk

open List

variable {keycodes : Entries} {c : Char} {v x : Document} {token : Field} {X : String}

def HasKey (keycodes : Entries) (token : Field) (v : Document) : Prop :=
  token.toDocument.isPresent = true ∧ HasValue keycodes "zmk" token v

def Unnamed (keycodes : Entries) (token : Field) : Prop :=
  ∀ entry, keycodes.lookup token = some entry →
    ∃ v, entry.findD "zmk" .null = .ok v ∧ v.isPresent = false

def CharacterKey (keycodes : Entries) (c : Char) (v : Document) : Prop :=
  ∃ token, (characterKeys keycodes).lookup c = some token ∧ HasKey keycodes token v

/-- Alone a character has the value of its own name, or else, if it is no letter, of the key which types it. -/
def TypedAlone (keycodes : Entries) (c : Char) (v : Document) : Prop :=
  HasValue keycodes "zmk" (String.singleton c) v ∨
    Unnamed keycodes (String.singleton c) ∧ Text.isLetter c = false ∧ CharacterKey keycodes c v

def textName (keycodes : Entries) (c : Char) : Option Field :=
  if Text.isLetter c then some (.word (Text.upper (String.singleton c)))
  else if Text.isDigit c then some (.word ("N" ++ String.singleton c))
  else (characterKeys keycodes).lookup c

/-- In a text a letter has the value of its capital, a digit that of the name with `N` in front, and all else
that of the key which types it. -/
def TypedInText (keycodes : Entries) (c : Char) (v : Document) : Prop :=
  ∃ token, textName keycodes c = some token ∧ HasKey keycodes token v

def bare : Document → Document
  | .text t => .text (if Text.startsWith t "&kp " then Text.replace "&kp " "" t else t)
  | d => d

theorem charKey_eq_ok : charKey keycodes (String.singleton c) = .ok x ↔
    ∃ v, TypedInText keycodes c v ∧ bare v = x := by
  have hs : singleChar? (String.singleton c) = some c := by simp [singleChar?]
  unfold charKey TypedInText textName
  rw [hs]
  dsimp only
  generalize (ite (Text.isLetter c) _ _ : Option Field) = token
  cases token with
  | none => simp [invalid]
  | some token =>
    simp only [check_eq_ok, Option.some.injEq, exists_eq_left', HasKey, HasValue]
    cases hf : keycodes.lookup token with
    | none => simp [invalid]
    | some entry =>
      simp only [check_eq_ok, bind_eq_ok, Option.some.injEq, exists_eq_left']
      constructor
      · rintro ⟨hn, v, h, hp, hd⟩
        refine ⟨v, ⟨by simpa using hn, h, by simpa using hp⟩, ?_⟩
        cases v <;> exact pure_eq_ok.mp hd
      · rintro ⟨v, ⟨hn, h, hp⟩, rfl⟩
        refine ⟨by simp [hn], v, h, by simp [hp], ?_⟩
        cases v <;> rfl

theorem plainKey_eq_ok : plainKey keycodes (String.singleton c) = .ok v ↔ TypedAlone keycodes c v ∨
    Unnamed keycodes (String.singleton c) ∧ Text.isLetter c ∧
      .text ("&kp " ++ Text.upper (String.singleton c)) = v := by
  unfold plainKey
  extract_lets key unknown rest
  have hk : key = String.singleton c := unprefixed_of_short (by simp)
  have hnx (named : Document) : rest named = .ok v ↔ if named.isPresent then named = v else
      if Text.isLetter c then .text ("&kp " ++ Text.upper (String.singleton c)) = v
      else CharacterKey keycodes c v := by
    have hc : key.toList = [c] := by simp [hk]
    simp only [rest, hc, CharacterKey]
    rw [hk]
    split
    · exact pure_eq_ok
    · split
      · exact pure_eq_ok
      · cases (characterKeys keycodes).lookup c with
        | none => simp [invalid]
        | some token =>
          simp only [check_eq_ok, Option.some.injEq, exists_eq_left', HasKey, HasValue]
          cases keycodes.lookup token with
          | none => simp [invalid]
          | some entry =>
            simp only [bind_eq_ok, Option.some.injEq, exists_eq_left', Bool.not_eq_true', Bool.not_eq_false]
            refine and_congr_right fun _ => ?_
            constructor
            · rintro ⟨value, hv, hd⟩
              split at hd
              · rename_i hp
                exact pure_eq_ok.mp hd ▸ ⟨hv, hp⟩
              · cases hd
            · rintro ⟨hv, hp⟩
              exact ⟨v, hv, by rw [if_pos hp]; rfl⟩
  clear_value rest
  rw [hk]
  simp only [TypedAlone, HasValue, Unnamed]
  cases keycodes.lookup (.word (String.singleton c)) with
  | none =>
    change rest .null = .ok v ↔ _
    rw [hnx]
    cases Text.isLetter c <;> simp [Document.isPresent]
  | some entry =>
    simp only [String.length_singleton, gt_iff_lt, Nat.lt_irrefl, if_false, bind_eq_ok, hnx, Option.some.injEq,
      exists_eq_left', forall_eq']
    constructor
    · rintro ⟨named, hn, hd⟩
      split at hd
      · rename_i hp
        exact .inl (.inl (hd ▸ ⟨hn, hp⟩))
      · rename_i h
        have h : ∃ v, entry.findD "zmk" .null = .ok v ∧ v.isPresent = false := ⟨named, hn, by simpa using h⟩
        cases hl : Text.isLetter c with
        | true => exact .inr ⟨h, rfl, by simpa [hl] using hd⟩
        | false => exact .inl (.inr ⟨h, rfl, by simpa [hl] using hd⟩)
    · rintro ((⟨hn, hp⟩ | ⟨⟨w, hn, h⟩, hl, hk⟩) | ⟨⟨w, hn, h⟩, hl, hk⟩)
      · exact ⟨v, hn, by rw [if_pos hp]⟩
      · exact ⟨w, hn, by simpa [h, hl] using hk⟩
      · exact ⟨w, hn, by simpa [h, hl] using hk⟩

theorem replaceFrom_of_lacks {old new cs : List Char} {mark : Char} (h : mark ∉ cs) :
    Text.replaceFrom (mark :: old) new 0 cs = cs := by
  induction cs with
  | nil => rfl
  | cons c cs ih =>
    rw [mem_cons, not_or] at h
    rw [Text.replaceFrom, if_neg (by simp [isPrefixOf, h.1]), ih h.2]

theorem bare_keyPress (hl : '&' ∉ X.toList) : bare (.text ("&kp " ++ X)) = .text X := by
  have h : ("&kp " ++ X).toList = '&' :: 'k' :: 'p' :: ' ' :: X.toList := by simp
  have hs : Text.startsWith ("&kp " ++ X) "&kp " := by
    rw [Text.startsWith, h]
    simp [isPrefixOf]
  rw [bare, if_pos hs, Text.replace, if_neg (by simp), h]
  simp [Text.replaceFrom, isPrefixOf, replaceFrom_of_lacks hl]

theorem ofDocument_text (name text : String) : Macro.ofDocument keycodes (.text name) (.text text) =
    (keyPresses keycodes (text.toList.map String.singleton)).map fun keys => ⟨name, chunks 10 keys⟩ := by
  have h : (text.toList.map fun c => Document.text (String.singleton c)).map Document.toText =
      text.toList.map String.singleton := by rw [map_map]; rfl
  unfold Macro.ofDocument Document.members Macro.ofPieces
  rw [ok_bind, h]
  cases keyPresses keycodes (text.toList.map String.singleton) <;> rfl

theorem exists_macro_iff {name text : String} :
    (∃ m, Macro.ofDocument keycodes (.text name) (.text text) = .ok m) ↔
      ∀ c ∈ text.toList, ∃ v, TypedInText keycodes c v := by
  have hp : (∃ keys, keyPresses keycodes (text.toList.map String.singleton) = .ok keys) ↔
      ∀ c ∈ text.toList, ∃ v, TypedInText keycodes c v := by
    rw [keyPresses, exists_mapM_eq_ok, forall_mem_map]
    refine forall₂_congr fun c _ => ?_
    simp only [exists_bind_eq_ok, charKey_eq_ok]
    exact ⟨fun ⟨_, ⟨v, ht, _⟩, _⟩ => ⟨v, ht⟩, fun ⟨v, ht⟩ => ⟨bare v, ⟨v, ht, rfl⟩, _, rfl⟩⟩
  simp only [ofDocument_text, map_eq_ok, ← hp]
  exact ⟨fun ⟨_, keys, h, _⟩ => ⟨keys, h⟩, fun ⟨keys, h⟩ => ⟨_, keys, h, rfl⟩⟩

/-- Among some values, every one that a character has alone has a counterpart where a text looks for the
character. -/
structure Alike (keycodes : Entries) (among : Document → Prop) (p : Document → Document → Prop) : Prop where
  letters : ∀ c v, among v → Text.isLetter c = true → HasValue keycodes "zmk" (String.singleton c) v →
    ∃ w, HasKey keycodes (Text.upper (String.singleton c)) w ∧ p v w
  digits : ∀ c v, among v → Text.isLetter c = false → Text.isDigit c = true → TypedAlone keycodes c v →
    ∃ w, HasKey keycodes ("N" ++ String.singleton c) w ∧ p v w
  others : ∀ c v, among v → Text.isLetter c = false → Text.isDigit c = false →
    HasValue keycodes "zmk" (String.singleton c) v → ∃ w, CharacterKey keycodes c w ∧ p v w

theorem alike_iff {among : Document → Prop} {p : Document → Document → Prop} (hr : ∀ v, p v v) :
    (∀ c v, among v → TypedAlone keycodes c v → ∃ w, TypedInText keycodes c w ∧ p v w) ↔
      Alike keycodes among p := by
  constructor
  · intro he
    refine ⟨fun c v hh h own => ?_, fun c v hh h hd ha => ?_, fun c v hh h hd own => ?_⟩
    · simpa [TypedInText, textName, h] using he c v hh (.inl own)
    · simpa [TypedInText, textName, h, hd] using he c v hh ha
    · simpa [TypedInText, textName, CharacterKey, h, hd] using he c v hh (.inl own)
  · intro hal c v hh ha
    simp only [TypedInText, textName]
    cases h : Text.isLetter c with
    | true =>
      rcases ha with own | ⟨-, ho, -⟩
      · simpa using hal.letters c v hh h own
      · cases h.symm.trans ho
    | false =>
      cases hd : Text.isDigit c with
      | true => simpa using hal.digits c v hh h hd ha
      | false =>
        rcases ha with own | ⟨-, -, ht⟩
        · exact hal.others c v hh h hd own
        · exact ⟨v, ht, hr v⟩

def IsKeyPress (v : Document) : Prop :=
  ∃ X : String, '&' ∉ X.toList ∧ v = .text ("&kp " ++ X)

/-- What a character is alone. Where the table has it, it is the same key in a text just if for letters their
capitals, for digits the names with `N` in front, and for all else the keys that type them are the same keys.
Texts of characters that are accepted alone can be typed just if all these are in the table, the capitals also
of letters that the table does not have. -/
theorem typed_alone_in_text_iff (keycodes : Entries) :
    (∀ c v, simpleKey keycodes (.text (String.singleton c)) = .ok v ↔ TypedAlone keycodes c v ∨
      Unnamed keycodes (String.singleton c) ∧ Text.isLetter c = true ∧
        .text ("&kp " ++ Text.upper (String.singleton c)) = v) ∧
    ((∀ c X, '&' ∉ X.toList → TypedAlone keycodes c (.text ("&kp " ++ X)) →
        charKey keycodes (String.singleton c) = .ok (.text X)) ↔
      Alike keycodes IsKeyPress fun v w => bare w = bare v) ∧
    ((∀ name text, (∀ c ∈ text.toList, ∃ v, simpleKey keycodes (.text (String.singleton c)) = .ok v) →
        ∃ m, Macro.ofDocument keycodes (.text name) (.text text) = .ok m) ↔
      Alike keycodes (fun _ => True) (fun _ _ => True) ∧ ∀ c, Text.isLetter c = true →
        Unnamed keycodes (String.singleton c) → ∃ w, HasKey keycodes (Text.upper (String.singleton c)) w) := by
  have isAlone (c : Char) (v : Document) : simpleKey keycodes (.text (String.singleton c)) = .ok v ↔ _ :=
    plainKey_eq_ok
  have isCapital {c : Char} (letter : Text.isLetter c = true) : (∃ w, TypedInText keycodes c w) ↔
      ∃ w, HasKey keycodes (Text.upper (String.singleton c)) w := by simp [TypedInText, textName, letter]
  refine ⟨isAlone, ?_, ?_⟩
  · rw [← alike_iff (p := fun v w => bare w = bare v) fun _ => rfl]
    simp only [charKey_eq_ok]
    constructor
    · rintro each c _ ⟨X, lacks, rfl⟩ alone
      rw [bare_keyPress lacks]
      exact each c X lacks alone
    · intro each c X lacks alone
      rw [← bare_keyPress lacks]
      exact each c _ ⟨X, lacks, rfl⟩ alone
  · rw [← alike_iff fun _ => trivial]
    simp only [exists_macro_iff, isAlone, and_true, true_implies]
    constructor
    · intro each
      have one (c : Char) := each "" (String.singleton c)
      simp only [String.toList_singleton, mem_singleton, forall_eq] at one
      exact ⟨fun c v alone => one c ⟨v, .inl alone⟩,
        fun c letter unnamed => (isCapital letter).mp (one c ⟨_, .inr ⟨unnamed, letter, rfl⟩⟩)⟩
    · rintro ⟨alike, capitals⟩ name text each c member
      obtain ⟨v, alone | ⟨unnamed, letter, -⟩⟩ := each c member
      · exact alike c v alone
      · exact (isCapital letter).mpr (capitals c letter unnamed)

/-- With the standard table, a digit is accepted alone and no text with it can be typed. -/
theorem standard_digit_untyped : simpleKey Standard.keycodes "1" = .ok "&kp N1" ∧
    (∀ m, Macro.ofDocument Standard.keycodes "one" "1" ≠ .ok m) ∧
    ¬ Alike Standard.keycodes IsKeyPress fun v w => bare w = bare v := by
  have own : HasValue Standard.keycodes "zmk" (String.singleton '1') "&kp N1" := ⟨_, rfl, rfl, rfl⟩
  have untyped : (charKey Standard.keycodes (String.singleton '1')).toOption = none := by decide +kernel
  obtain ⟨isAlone, alike, -⟩ := typed_alone_in_text_iff Standard.keycodes
  refine ⟨(isAlone '1' _).mpr (.inl (.inl own)), fun m done => ?_, fun same => ?_⟩
  · obtain ⟨v, typed⟩ := exists_macro_iff.mp ⟨m, done⟩ '1' (by simp)
    rw [charKey_eq_ok.mpr ⟨v, typed, rfl⟩] at untyped
    cases untyped
  · rw [alike.mpr same '1' "N1" (by decide) (.inl own)] at untyped
    cases untyped

end Keymap.Zmk
