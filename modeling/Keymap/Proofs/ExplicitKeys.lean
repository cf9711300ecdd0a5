import Keymap.Proofs.Outcome
import Keymap.Proofs.Texts
import Keymap.Qmk.Magic
import Keymap.Zmk.Magic

namespace Keymap

variable {keycodes : Entries} {name key : String} {entry q z value : Document}

def HasValue (keycodes : Entries) (firmware name : Field) (value : Document) : Prop :=
  ∃ entry, keycodes.lookup name = some entry ∧ entry.findD firmware .null = .ok value ∧
    value.isPresent = true

namespace Zmk

def unprefixed (key : String) : String :=
  if Text.startsWith key "KC_" then Text.drop 3 key else key

theorem startsWith_keycode (name : String) : Text.startsWith ("KC_" ++ name) "KC_" := by
  rw [Text.startsWith, List.isPrefixOf_iff_prefix, String.toList_append]
  exact List.prefix_append _ _

theorem unprefixed_append (name : String) : unprefixed ("KC_" ++ name) = name := by
  rw [unprefixed, if_pos (startsWith_keycode name), Text.drop, String.toList_append]
  simp

theorem plainKey_of_short (hs : (unprefixed key).length ≤ 1)
    (hl : HasValue keycodes "zmk" (unprefixed key) z) : plainKey keycodes key = .ok z := by
  obtain ⟨entry, hf, hv, hp⟩ := hl
  unfold plainKey
  extract_lets name unknown rest
  have hn : name = unprefixed key := rfl
  have hnx : rest z = .ok z := by
    unfold rest
    split
    · rw [if_pos hp]
      rfl
    · rw [if_pos hp]
      rfl
    · rename_i hnn hno
      rw [← String.length_toList, ← hn] at hs
      cases h : name.toList with
      | nil => exact absurd h hnn
      | cons c cs =>
        cases cs with
        | nil => exact absurd h (hno c)
        | cons d ds =>
          rw [h] at hs
          simp at hs
  rw [hn, hf]
  change (if (unprefixed key).length > 1 then _ else _) = _
  rw [if_neg (by omega), hv]
  exact hnx

theorem plainKey_of_long (h : 1 < (unprefixed key).length) : plainKey keycodes key =
    (tapSequence keycodes ((unprefixed key).toList.map String.singleton)).map .text := by
  unfold plainKey
  extract_lets name unknown rest
  have hn : name = unprefixed key := rfl
  have hnx : ∀ named, rest named =
      (tapSequence keycodes ((unprefixed key).toList.map String.singleton)).map .text := by
    intro named
    unfold rest
    rw [hn]
    rw [← String.length_toList] at h
    match hc : (unprefixed key).toList with
    | [] | [_] => simp [hc] at h
    | c :: d :: ds =>
      change (tapSequence keycodes ((c :: d :: ds).map String.singleton) >>= fun text => pure (Document.text text)) = _
      cases tapSequence keycodes ((c :: d :: ds).map String.singleton) with
      | error fault => rfl
      | ok text => rfl
  clear_value rest
  split
  · rw [hn, if_pos h]
    exact hnx .null
  · exact hnx .null

/-- The key that a name of several characters is read as: its characters are tapped one by one. -/
def TapsOut (keycodes : Entries) (name : String) (z : Document) : Prop :=
  ∃ text, tapSequence keycodes (name.toList.map String.singleton) = .ok text ∧ z = .text text

theorem plainKey_eq_ok_iff (hl : HasValue keycodes "zmk" (unprefixed key) z) :
    plainKey keycodes key = .ok z ↔ (unprefixed key).length ≤ 1 ∨ TapsOut keycodes (unprefixed key) z := by
  by_cases h : (unprefixed key).length ≤ 1
  · exact ⟨fun _ => .inl h, fun _ => plainKey_of_short h hl⟩
  · rw [plainKey_of_long (Nat.lt_of_not_le h), map_eq_ok, or_iff_right h, TapsOut]
    simp only [eq_comm]

end Zmk

namespace Qmk

theorem plainKeycode_of_hasValue (hl : HasValue keycodes "qmk" name q) :
    plainKeycode keycodes name = .ok q := by
  obtain ⟨entry, h, hv, hp⟩ := hl
  rw [plainKeycode, h]
  change (entry.findD "qmk" .null >>= fun value => _) = _
  rw [hv, ok_bind, if_pos hp]
  rfl

theorem plainKeycode_eq_ok_iff (hl : 1 < name.length) :
    plainKeycode keycodes name = .ok value ↔ HasValue keycodes "qmk" name value := by
  refine ⟨fun h => ?_, plainKeycode_of_hasValue⟩
  unfold plainKeycode at h
  extract_lets absent unknown at h
  split at h
  · rename_i entry hf
    obtain ⟨v, hv, h⟩ := bind_eq_ok.mp h
    split at h
    · rename_i hp
      obtain rfl := pure_eq_ok.mp h
      exact ⟨entry, hf, hv, hp⟩
    · cases h
  · have hs : singleChar? name = none := by
      rw [← String.length_toList] at hl
      unfold singleChar?
      match hc : name.toList with
      | [] => rfl
      | [c] => simp [hc] at hl
      | c :: d :: ds => rfl
    rw [hs] at h
    cases h

end Qmk

theorem MagicMapping.validate_keycodeDefault (m : MagicMapping) (name : String) :
    { m with default := .text ("KC_" ++ name) }.validate = { m with default := "REPEAT" }.validate := by
  unfold validate
  extract_lets ofKeycode ofKeycode' ofRepeat ofRepeat'
  have hs : ofKeycode = ofRepeat := by
    funext done
    unfold ofKeycode ofRepeat
    refine bind_congr fun entries => bind_congr fun _ => ?_
    dsimp only
    split
    · rename_i h
      cases h
    · rfl
    · rfl
    · change (if (!Text.startsWith ("KC_" ++ name) "KC_") = true then _ else _) = _
      rw [Zmk.startsWith_keycode]
      rfl
  unfold ofKeycode' ofRepeat'
  rw [hs]
  rfl

/-- A name stands for its own keys, `q` and `z`, when it is given as an alternate and when it is given as a
default. -/
structure Resolves (keycodes : Entries) (name : String) (q z : Document) : Prop where
  alternateQmk : Qmk.simpleKeycode keycodes (.record [("kc", .text name)]) = .ok q
  alternateZmk : Zmk.simpleKey keycodes (.record [("kc", .text name)]) = .ok z
  defaultQmk : Qmk.magicDefault keycodes (.text ("KC_" ++ name)) = .ok ⟨"KC_" ++ name, q.toText⟩
  defaultZmk : Zmk.magicDefault keycodes (.text ("KC_" ++ name)) = .ok z

theorem keycode_ne {name other : String} (h : Text.startsWith other "KC_" = false) : "KC_" ++ name ≠ other := by
  rintro rfl
  rw [Zmk.startsWith_keycode] at h
  cases h

theorem Qmk.magicDefault_keycode (keycodes : Entries) (name : String) :
    magicDefault keycodes (.text ("KC_" ++ name)) =
      (plainKeycode keycodes ("KC_" ++ name)).map fun value => ⟨"KC_" ++ name, value.toText⟩ := by
  unfold magicDefault
  split
  · rename_i h
    exact absurd (Document.text.inj h) (keycode_ne (by decide))
  · rename_i h
    exact absurd (Document.text.inj h) (keycode_ne (by decide))
  · change (plainKeycode keycodes ("KC_" ++ name) >>= fun value => _) = _
    cases plainKeycode keycodes ("KC_" ++ name) with
    | error fault => rfl
    | ok value => rfl

theorem Zmk.magicDefault_keycode (keycodes : Entries) (name : String) :
    magicDefault keycodes (.text ("KC_" ++ name)) = plainKey keycodes ("KC_" ++ name) := by
  unfold magicDefault
  split
  · rename_i h
    exact absurd (Document.text.inj h) (keycode_ne (by decide))
  · rename_i h
    exact absurd (Document.text.inj h) (keycode_ne (by decide))
  · rfl

theorem Zmk.unprefixed_of_short (short : name.length ≤ 1) : unprefixed name = name := by
  rw [unprefixed, if_neg]
  intro hs
  rw [Text.startsWith, List.isPrefixOf_iff_prefix] at hs
  have h := hs.length_le
  rw [String.length_toList] at h
  exact absurd (Nat.le_trans h short) (by decide)

/-- Every default that starts with `KC_` is accepted. A name with keys `q` and `z` in the table resolves to
them just if the table also has an entry for the name with `KC_` in front, for the same QMK key, and the name
is a single character (or its ZMK key happens to be the one that taps the name out). -/
theorem explicit_name_resolves_iff (qmk : HasValue keycodes "qmk" name q) (zmk : HasValue keycodes "zmk" name z) :
    (∀ m : MagicMapping, { m with default := .text ("KC_" ++ name) }.validate =
      { m with default := "REPEAT" }.validate) ∧
    (Resolves keycodes name q z ↔
      (∃ value, HasValue keycodes "qmk" ("KC_" ++ name) value ∧ value.toText = q.toText) ∧
      (name.length ≤ 1 ∨ Zmk.TapsOut keycodes name z ∧
        (Text.startsWith name "KC_" = true → Zmk.plainKey keycodes name = .ok z))) := by
  refine ⟨fun m => m.validate_keycodeDefault name, ?_⟩
  have long : 1 < ("KC_" ++ name).length := by
    rw [String.length_append]
    exact Nat.lt_of_lt_of_le (by decide) (Nat.le_add_right _ _)
  have defaultQmk : Qmk.magicDefault keycodes (.text ("KC_" ++ name)) = .ok ⟨"KC_" ++ name, q.toText⟩ ↔
      ∃ value, HasValue keycodes "qmk" ("KC_" ++ name) value ∧ value.toText = q.toText := by
    simp only [Qmk.magicDefault_keycode, map_eq_ok, Qmk.plainKeycode_eq_ok_iff long, Qmk.MagicDefault.mk.injEq,
      true_and]
  have defaultZmk : Zmk.magicDefault keycodes (.text ("KC_" ++ name)) = .ok z ↔
      name.length ≤ 1 ∨ Zmk.TapsOut keycodes name z := by
    have listed : HasValue keycodes "zmk" (Zmk.unprefixed ("KC_" ++ name)) z := by
      rwa [Zmk.unprefixed_append]
    rw [Zmk.magicDefault_keycode, Zmk.plainKey_eq_ok_iff listed, Zmk.unprefixed_append]
  have alternateZmk : Zmk.simpleKey keycodes (.record [("kc", .text name)]) = Zmk.plainKey keycodes name := rfl
  constructor
  · intro resolves
    refine ⟨defaultQmk.mp resolves.defaultQmk, (defaultZmk.mp resolves.defaultZmk).imp_right fun taps => ?_⟩
    exact ⟨taps, fun _ => alternateZmk ▸ resolves.alternateZmk⟩
  · rintro ⟨hasKeycode, either⟩
    refine ⟨Qmk.plainKeycode_of_hasValue qmk, ?_, defaultQmk.mpr hasKeycode,
      defaultZmk.mpr (either.imp_right And.left)⟩
    rw [alternateZmk]
    rcases either with short | ⟨taps, prefixed⟩
    · have listed : HasValue keycodes "zmk" (Zmk.unprefixed name) z := by
        rwa [Zmk.unprefixed_of_short short]
      exact (Zmk.plainKey_eq_ok_iff listed).mpr (.inl ((Zmk.unprefixed_of_short short).symm ▸ short))
    · by_cases starts : Text.startsWith name "KC_" = true
      · exact prefixed starts
      · have whole : Zmk.unprefixed name = name := if_neg starts
        have listed : HasValue keycodes "zmk" (Zmk.unprefixed name) z := by rwa [whole]
        rw [Zmk.plainKey_eq_ok_iff listed, whole]
        exact .inr taps

def enterTable : Entries :=
  [("A", .record [("qmk", "KC_A"), ("zmk", "&kp A")]), ("KC_A", .record [("qmk", "KC_A")]),
   ("E", .record [("qmk", "KC_E"), ("zmk", "&kp E")]), ("N", .record [("qmk", "KC_N"), ("zmk", "&kp N")]),
   ("T", .record [("qmk", "KC_T"), ("zmk", "&kp T")]),
   ("ENT", .record [("qmk", "KC_ENT"), ("zmk", "&kp ENTER")]), ("KC_ENT", .record [("qmk", "KC_ENT")])]

/-- The name of the enter key is typed as three letters. -/
theorem enter_is_spelled : Resolves enterTable "A" "KC_A" "&kp A" ∧
    ¬ Resolves enterTable "ENT" "KC_ENT" "&kp ENTER" ∧
    Zmk.simpleKey enterTable (.record [("kc", "ENT")]) = .ok "&macro_tap &kp E &kp N &kp T" := by
  have letterQmk : HasValue enterTable "qmk" "A" "KC_A" := ⟨_, rfl, rfl, rfl⟩
  have letterZmk : HasValue enterTable "zmk" "A" "&kp A" := ⟨_, rfl, rfl, rfl⟩
  have enterQmk : HasValue enterTable "qmk" "ENT" "KC_ENT" := ⟨_, rfl, rfl, rfl⟩
  have enterZmk : HasValue enterTable "zmk" "ENT" "&kp ENTER" := ⟨_, rfl, rfl, rfl⟩
  have spelled : Zmk.tapSequence enterTable ("ENT".toList.map String.singleton) =
      .ok "&macro_tap &kp E &kp N &kp T" := by decide +kernel
  have whole : Zmk.unprefixed "ENT" = "ENT" := by decide
  refine ⟨(explicit_name_resolves_iff letterQmk letterZmk).2.mpr
    ⟨⟨"KC_A", ⟨_, rfl, rfl, rfl⟩, rfl⟩, .inl (by decide)⟩, fun resolves => ?_, ?_⟩
  · rcases ((explicit_name_resolves_iff enterQmk enterZmk).2.mp resolves).2 with short | ⟨⟨text, isText, same⟩, -⟩
    · exact absurd short (by decide)
    · obtain rfl := Except.ok.inj (spelled.symm.trans isText)
      exact absurd (Document.text.inj same) (by decide)
  · change Zmk.plainKey enterTable "ENT" = _
    rw [Zmk.plainKey_of_long (by decide), whole, spelled]
    rfl

end Keymap
