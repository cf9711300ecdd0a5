import Keymap.Keylayout
import Keymap.Proofs.Assignments
import Keymap.Proofs.Outcome
import Keymap.Proofs.Texts

namespace Keymap

open List

namespace Keylayout

variable {layout : List (List String)} {code : Nat} {key text : String} {c : Char}

section Places

def Fits (layout : List (List String)) : Prop :=
  layout.map length = positionCodes.map length

theorem fits_of_valid {config : RowStagger} (h : config.validate = .ok ()) : Fits config.layout := by
  rw [RowStagger.validate] at h
  obtain ⟨ht, h⟩ := check_eq_ok.mp h
  obtain ⟨a, b, c, hl⟩ := length_eq_three.mp (by simpa using ht)
  rw [hl] at h
  obtain ⟨_, he, -⟩ := bind_eq_ok.mp h
  have he := (checks_eq_ok (c := fun x : (List String × Nat) × Nat => (x.1.1.length != x.1.2))).mp he
  simp [RowStagger.rowLengths] at he
  simp [Fits, hl, positionCodes, he]

theorem positionCode_eq {r c : Nat} (h : (positionCodes[r]?.bind (·[c]?)) = some code) :
    positionCode (.whole r) (.whole c) = .ok code := by
  have all : ∀ r < 3, ∀ c < 12, (positionCode (.whole (r : Nat)) (.whole (c : Nat))).toOption =
      positionCodes[r]?.bind (·[c]?) := by decide
  obtain ⟨row, hr, hc⟩ := Option.bind_eq_some_iff.mp h
  have hs : row.length ≤ 12 := (by decide : ∀ row ∈ positionCodes, row.length ≤ 12) row (mem_of_getElem? hr)
  have hi : r < 3 := (List.getElem?_eq_some_iff.mp hr).1
  exact eq_ok_of_toOption ((all r hi c ((List.getElem?_eq_some_iff.mp hc).1.trans_le hs)).trans h)

theorem rowCodes_eq {r : Nat} {codes : List Nat} {row : List String} (hr : positionCodes[r]? = some codes)
    (hf : row.length = codes.length) :
    (row.zipIdx.mapM fun e => do return (← positionCode (.whole r) (.whole e.2), e.1) : Result _) =
      .ok (codes.zip row) := by
  refine mapM_eq_ok.mpr (forall₂_iff_get.mpr ⟨by simp [hf], fun i hi hin => ?_⟩)
  have hc : codes[i]? = some (codes.get ⟨i, by simp at hi; omega⟩) := by simp
  have h := positionCode_eq (c := i) (r := r) (by rw [hr]; exact hc)
  simp [h]

def coded (layout : List (List String)) : List (Nat × String) :=
  (zipWith zip positionCodes layout).flatten

theorem codedKeys_eq (h : Fits layout) :
    codedKeys layout = .ok (coded layout) ∧ (coded layout).map (·.1) = positionCodes.flatten := by
  have hth : layout.length = 3 := by simpa [positionCodes] using congrArg length h
  obtain ⟨a, b, c, rfl⟩ := length_eq_three.mp hth
  simp only [Fits, positionCodes, map_cons, map_nil, cons.injEq] at h
  obtain ⟨hf, hs, ht, -⟩ := h
  constructor
  · rw [codedKeys]
    refine bind_eq_ok.mpr ⟨zipWith zip positionCodes [a, b, c], mapM_eq_ok.mpr ?_, rfl⟩
    exact .cons (rowCodes_eq rfl hf) (.cons (rowCodes_eq rfl hs) (.cons (rowCodes_eq rfl ht) .nil))
  · simp only [coded, positionCodes, zipWith_cons_cons, zipWith_nil_right, map_flatten, map_cons, map_nil,
      map_fst_zip hf.ge, map_fst_zip hs.ge, map_fst_zip ht.ge]

/-- The code of a place of the layout with the key that stands there. -/
def Placed (layout : List (List String)) (code : Nat) (key : String) : Prop :=
  ∃ r c, positionCode (.whole (r : Nat)) (.whole (c : Nat)) = .ok code ∧ layout[r]?.bind (·[c]?) = some key

theorem lookup_coded (hf : Fits layout) (hp : Placed layout code key) : (coded layout).lookup code = some key := by
  obtain ⟨r, c, hcd, h⟩ := hp
  obtain ⟨row, hr, h⟩ := Option.bind_eq_some_iff.mp h
  have hw := congrArg (·[r]?) hf
  simp only [getElem?_map, hr, Option.map_some] at hw
  obtain ⟨codes, hc, hw⟩ := Option.map_eq_some_iff.mp hw.symm
  have hi : c < codes.length := hw ▸ (List.getElem?_eq_some_iff.mp h).1
  have hfn : positionCodes[r]?.bind (·[c]?) = some codes[c] := by
    rw [hc]
    exact getElem?_eq_getElem hi
  obtain rfl : codes[c] = code := Except.ok.inj ((positionCode_eq hfn).symm.trans hcd)
  have hd : ((coded layout).map (·.1)).Nodup := (codedKeys_eq hf).2 ▸ by decide
  refine lookup_of_mem (e := (codes[c], key)) hd (mem_flatten.mpr ⟨codes.zip row, ?_, ?_⟩)
  · exact mem_of_getElem? (i := r) (by simp [getElem?_zipWith, hc, hr])
  · exact mem_of_getElem? (i := c) (getElem?_zip_eq_some.mpr ⟨getElem?_eq_getElem hi, h⟩)

theorem lookup_uncoded (h : Fits layout) (ho : code ∉ positionCodes.flatten) : (coded layout).lookup code = none :=
  lookup_eq_none_iff_not_mem.mpr ((codedKeys_eq h).2 ▸ ho)

theorem nodup_standardKeys : (standardKeys.map (·.1)).Nodup := by
  have h : (standardKeys.map (·.1)).IsChain (· < ·) := by simp [standardKeys]
  exact (isChain_iff_pairwise.mp h).imp Nat.ne_of_lt

/-- The key maps have the codes of the standard keys in their order. The layout decides its own keys. -/
theorem exists_keyMap (hf : Fits layout) (index : Nat) (title : String) :
    ∃ m, keyMap index title layout = .ok m ∧ m.index = index ∧ m.keys.map (·.1) = standardKeys.map (·.1) ∧
      (∀ code key, Placed layout code key → m.keys.lookup code = some (layoutEffect index key)) ∧
      ∀ e ∈ standardKeys, e.1 ∉ positionCodes.flatten → m.keys.lookup e.1 = some (standardEffect index e.2) := by
  let effect (e : Nat × String) : Effect :=
    (((coded layout).lookup e.1).map (layoutEffect index)).getD (standardEffect index e.2)
  have hm : keyMap index title layout = .ok ⟨index, title, standardKeys.map fun e => (e.1, effect e)⟩ := by
    rw [keyMap, (codedKeys_eq hf).1, ok_bind]
    refine congrArg (fun keys => Except.ok (KeyMap.mk index title keys)) (map_congr_left fun e _ => ?_)
    simp only [effect]
    cases (coded layout).lookup e.1 <;> rfl
  have hc : (standardKeys.map fun e => (e.1, effect e)).map (·.1) = standardKeys.map (·.1) := by
    rw [map_map]
    rfl
  have hfn (e : Nat × String) (h : e ∈ standardKeys) :
      (standardKeys.map fun e => (e.1, effect e)).lookup e.1 = some (effect e) :=
    lookup_of_mem (hc.symm ▸ nodup_standardKeys) (mem_map_of_mem (f := fun e => (e.1, effect e)) h)
  refine ⟨_, hm, rfl, hc, fun code key hp => ?_, fun e h ho => ?_⟩
  · have hk := lookup_coded hf hp
    have hl : ∀ code ∈ positionCodes.flatten, code ∈ standardKeys.map (·.1) := by decide
    have hcd : code ∈ positionCodes.flatten := (codedKeys_eq hf).2 ▸ lookup_isSome_iff_mem.mp (by rw [hk]; rfl)
    obtain ⟨e, h, rfl⟩ := mem_map.mp (hl code hcd)
    rw [hfn e h]
    simp only [effect, hk]
    rfl
  · rw [hfn e h]
    simp only [effect, lookup_uncoded hf ho]
    rfl

theorem keyMaps_eq {plain shift caps : KeyMap} (hp : keyMap 0 "Base / Command Layer" layout = .ok plain)
    (hs : keyMap 1 "Shift Layer" (layout.map (·.map shifted)) = .ok shift)
    (h : keyMap 2 "Capitals Lock Layer" (layout.map (·.map capital)) = .ok caps) :
    keyMaps layout = .ok [plain, shift, caps] := by
  rw [keyMaps, hp, ok_bind, shiftLayer, hs, ok_bind, capsLayer, h]
  rfl

end Places

section Reading

def hexDigit? (c : Char) : Option Nat :=
  "0123456789ABCDEF".toList.idxOf? c

/-- What the value of an attribute stands for: character references are resolved, and the characters that begin
references and elements do not stand for themselves. Raw control characters are taken as they are, though a
reader takes tabs and ends of lines for blanks and refuses the others. -/
def decode : List Char → Option (List Char)
  | [] => some []
  | '&' :: '#' :: 'x' :: a :: b :: c :: d :: ';' :: cs => do
    let digits ← [a, b, c, d].mapM hexDigit?
    return Char.ofNat (digits.foldl (fun n digit => 16 * n + digit) 0) :: (← decode cs)
  | c :: cs => if c = '&' ∨ c = '<' then none else (decode cs).map (c :: ·)

/-- The action or the decoded output of the line of a key. -/
def valueOf? (code : Nat) (line : String) : Option String :=
  match Text.split '"' line with
  | [start, number, kind, value, stop] =>
    if start = "            <key code=" ∧ number = toString code ∧ stop = "/>" then
      if kind = " action=" then some value
      else if kind = " output=" then (decode value.toList).map String.ofList
      else none
    else none
  | _ => none

def KeyMap.valueOf? (m : KeyMap) (code : Nat) : Option String :=
  (m.keys.lookup code).bind fun effect => Keylayout.valueOf? code (keyLine (code, effect))

def marks : List Char := ['&', '<', '"']

def Plain (text : String) : Prop :=
  ∀ mark ∈ marks, mark ∉ text.toList

theorem decode_plain {cs : List Char} (h : '&' ∉ cs) (he : '<' ∉ cs) : decode cs = some cs := by
  induction cs with
  | nil => rfl
  | cons c cs ih =>
    simp only [mem_cons, not_or] at h he
    rw [decode, if_neg (by simp [Ne.symm h.1, Ne.symm he.1]), ih h.2 he.2]
    · rfl
    · rintro _ _ _ _ _ rfl
      exact absurd rfl h.1

theorem split_quoted {a b c d e : String} (h : ∀ piece ∈ [a, b, c, d, e], '"' ∉ piece.toList) :
    Text.split '"' (a ++ "\"" ++ b ++ "\"" ++ c ++ "\"" ++ d ++ "\"" ++ e) = [a, b, c, d, e] := by
  simp only [forall_mem_cons] at h
  obtain ⟨inA, inB, inC, inD, inE, -⟩ := h
  simp only [Text.split, @Text.splitChars_joined '"' "\"" rfl, Text.splitChars_of_not_mem inA,
    Text.splitChars_of_not_mem inB, Text.splitChars_of_not_mem inC, Text.splitChars_of_not_mem inD,
    Text.splitChars_of_not_mem inE]
  simp

/-- The line of a key, with an attribute of the given name for what the key does. -/
def attributeLine (code : Nat) (kind value : String) : String :=
  "            <key code=" ++ "\"" ++ toString code ++ "\"" ++ kind ++ "\"" ++ value ++ "\"" ++ "/>"

theorem keyLine_eq (code : Nat) (text : String) :
    KeyMap.keyLine (code, .action text) = attributeLine code " action=" text ∧
      KeyMap.keyLine (code, .output text) = attributeLine code " output=" text := by
  have ho : "            <key code=\"" = "            <key code=" ++ "\"" := by decide
  have h : "\" action=\"" = "\"" ++ " action=" ++ "\"" := by decide
  have hou : "\" output=\"" = "\"" ++ " output=" ++ "\"" := by decide
  have hc : "\"/>" = "\"" ++ "/>" := by decide
  have hp (s : String) : toString s = s := rfl
  unfold KeyMap.keyLine attributeLine
  dsimp only
  generalize toString code = number
  rw [ho, h, hou, hc]
  simp only [hp, String.append_assoc, and_self]

theorem valueOf_attributeLine {kind value : String} (hk : kind = " action=" ∨ kind = " output=")
    (hp : '"' ∉ value.toList) : valueOf? code (attributeLine code kind value) =
      if kind = " action=" then some value else (decode value.toList).map String.ofList := by
  have h : '"' ∉ (toString code).toList := fun hm => absurd (Text.isIdentifier_toString code _ hm) (by decide)
  have hkp : '"' ∉ kind.toList := by rcases hk with rfl | rfl <;> decide
  unfold valueOf? attributeLine
  generalize toString code = number at h
  rw [split_quoted (by
    simp only [forall_mem_cons]
    exact ⟨by decide, h, hkp, hp, by decide, by simp⟩)]
  dsimp only
  rw [if_pos ⟨rfl, rfl, rfl⟩]
  rcases hk with rfl | rfl
  · rw [if_pos rfl, if_pos rfl]
  · rw [if_neg (by decide), if_pos rfl, if_neg (by decide)]

theorem valueOf_action (h : '"' ∉ text.toList) : valueOf? code (KeyMap.keyLine (code, .action text)) = some text := by
  rw [(keyLine_eq code text).1, valueOf_attributeLine (.inl rfl) h, if_pos rfl]

theorem valueOf_output {value : String} (hp : '"' ∉ value.toList) (h : decode value.toList = some text.toList) :
    valueOf? code (KeyMap.keyLine (code, .output value)) = some text := by
  rw [(keyLine_eq code value).2, valueOf_attributeLine (.inr rfl) hp, if_neg (by decide), h]
  exact congrArg some String.ofList_toList

theorem read_escape (hr : (∃ c, text = String.singleton c) ∨ Plain text) :
    '"' ∉ (escape text).toList ∧ decode (escape text).toList = some text.toList := by
  unfold escape
  split
  case h_6 lt _ amp hq _ =>
    have h : Plain text := by
      rcases hr with ⟨c, rfl⟩ | h
      · intro mark hm hmm
        rw [String.toList_singleton, mem_singleton] at hmm
        subst hmm
        simp only [marks, mem_cons, not_mem_nil, or_false] at hm
        rcases hm with rfl | rfl | rfl
        · exact amp rfl
        · exact lt rfl
        · exact hq rfl
      · exact h
    exact ⟨h _ (by simp [marks]), decode_plain (h _ (by simp [marks])) (h _ (by simp [marks]))⟩
  all_goals decide

end Reading

section Letters

variable {mark : Char} {index : Nat}

def accented : List Char := ['a', 'e', 'i', 'n', 'o', 'u', 'y']

theorem apart_of_runs {runs : List (Nat × Nat × Nat × Int)} (hl : ¬ c.toNat < 128)
    (h : (runs.all fun r => accented.all fun mark => decide (r.2.1 < 128 ∨
      (mark.toNat : Int) < r.1 + r.2.2.2 ∨ r.2.1 + r.2.2.2 < (mark.toNat : Int))))
    (hm : mark ∈ accented) : ∀ r ∈ runs, r.2.1 < c.toNat ∨ (mark.toNat : Int) < r.1 + r.2.2.2 ∨
      r.2.1 + r.2.2.2 < (mark.toNat : Int) := by
  intro r hr
  have h := of_decide_eq_true (all_eq_true.mp (all_eq_true.mp h r hr) mark hm)
  omega

theorem ne_of_large (hl : ¬ c.toNat < 128) (h : mark ∈ accented) : c ≠ mark := by
  rintro rfl
  exact hl (of_decide_eq_true (all_eq_true.mp (by decide : accented.all (fun c => decide (c.toNat < 128))) c h))

theorem given_of_accented (h : mark ∈ accented) : 0 < mark.toNat :=
  of_decide_eq_true (all_eq_true.mp (by decide : accented.all (fun c => decide (0 < c.toNat))) mark h)

theorem upperOf_ne (h : mark ∈ accented) : Text.upperOf c ≠ [mark] := by
  rw [Text.upperOf]
  split
  · rename_i hsm
    intro hs
    have all : ∀ n < 128, (Char.ofNat n).toUpper ∉ accented := by decide
    have hh := all c.toNat hsm
    rw [Char.ofNat_toNat] at hh
    exact hh ((cons.inj hs).1 ▸ h)
  · rename_i hl
    exact Text.recase_ne_singleton (ne_of_large hl h) (given_of_accented h) (by decide)
      (apart_of_runs hl (by decide) h)

theorem lower_singleton (c : Char) : Text.lower (String.singleton c) = String.ofList (Text.lowerWithin [] c []) := by
  rw [Text.lower, String.toList_singleton, Text.lowerChars, Text.lowerChars, append_nil]

/-- Only the letters themselves and their capitals have these small letters. -/
theorem cased_of_accented (ha : accentedLetters.contains (Text.lower (String.singleton c))) :
    c ∈ accented ∨ c ∈ accented.map Char.toUpper := by
  have ht : ∃ mark ∈ accented, Text.lower (String.singleton c) = String.singleton mark := by
    have htx : accentedLetters = accented.map String.singleton := by decide
    rw [contains_iff_mem, htx] at ha
    obtain ⟨mark, hm, h⟩ := mem_map.mp ha
    exact ⟨mark, hm, h.symm⟩
  obtain ⟨mark, hm, h⟩ := ht
  have h : Text.lowerWithin [] c [] = [mark] := by
    have hc := congrArg String.toList h
    rwa [lower_singleton, String.toList_ofList, String.toList_singleton] at hc
  rw [Text.lowerWithin] at h
  split at h
  · rw [← (cons.inj (show ['σ'] = [mark] from h)).1] at hm
    exact absurd hm (by decide)
  · rw [Text.lowerOf] at h
    split at h
    · rename_i hs
      have all : ∀ n < 128, (Char.ofNat n).toLower ∈ accented →
          Char.ofNat n ∈ accented ∨ Char.ofNat n ∈ accented.map Char.toUpper := by decide
      have hh := all c.toNat hs
      rw [Char.ofNat_toNat] at hh
      exact hh ((cons.inj h).1 ▸ hm)
    · rename_i hl
      exact absurd h (Text.recase_ne_singleton (ne_of_large hl hm) (given_of_accented hm) (by decide)
        (apart_of_runs hl (by decide) hm))

/-- The text of the action for an accented letter. -/
def actionOf (index : Nat) (text : String) : String :=
  if index == 1 || (index == 2 && Text.isUpper text) then Text.upper (Text.lower text) else Text.lower text

theorem layoutEffect_eq (index : Nat) (text : String) : layoutEffect index text =
    if (isSingleLetter text && accentedLetters.contains (Text.lower text)) = true then .action (actionOf index text)
    else .output (escape text) := by
  unfold layoutEffect actionOf
  dsimp only
  split
  · split <;> rfl
  · rfl

theorem letter_of_single (h : isSingleLetter text) : ∃ c, text = String.singleton c ∧ Text.isLetter c := by
  unfold isSingleLetter at h
  split at h
  · rename_i c ht
    exact ⟨c, String.toList_inj.mp (ht.trans (String.toList_singleton c).symm), h⟩
  · cases h

theorem isSingleLetter_singleton (c : Char) : isSingleLetter (String.singleton c) = Text.isLetter c := by
  rw [isSingleLetter, String.toList_singleton]

theorem valueOf_layoutEffect (hr : (∃ c, text = String.singleton c) ∨ Plain text)
    (own : isSingleLetter text → accentedLetters.contains (Text.lower text) → actionOf index text = text) :
    valueOf? code (KeyMap.keyLine (code, layoutEffect index text)) = some text := by
  rw [layoutEffect_eq]
  split
  · rename_i hac
    obtain ⟨h, ha⟩ := (Bool.and_eq_true _ _).mp hac
    rw [own h ha]
    obtain ⟨c, rfl, h⟩ := letter_of_single h
    refine valueOf_action fun hm => ?_
    rw [String.toList_singleton, mem_singleton] at hm
    rw [← hm] at h
    exact absurd h (by decide)
  · exact valueOf_output (read_escape hr).1 (read_escape hr).2

theorem plain_upper (hl : Text.isLetter c) : Plain (Text.upper (String.singleton c)) := by
  intro mark h
  have ho : mark ∉ (String.singleton c).toList := by
    intro hm
    rw [String.toList_singleton, mem_singleton] at hm
    rw [← hm] at hl
    exact absurd hl (by simpa using all_eq_true.mp (by decide : marks.all (fun c => !Text.isLetter c)) mark h)
  refine Text.not_mem_upper ?_ ho
  simp only [marks, mem_cons, not_mem_nil, or_false] at h
  rcases h with rfl | rfl | rfl <;> simp

/-- Capitals of letters are found again, in the layer of capitals and where a shift key is held. -/
theorem valueOf_capital (hi : index = 1 ∨ index = 2) (hl : Text.isLetter c) :
    valueOf? code (KeyMap.keyLine (code, layoutEffect index (Text.upper (String.singleton c)))) =
      some (Text.upper (String.singleton c)) := by
  refine valueOf_layoutEffect (.inr (plain_upper hl)) fun hs h => ?_
  obtain ⟨d, ht, -⟩ := letter_of_single hs
  have hu : Text.upperOf c = [d] := by
    have hc := congrArg String.toList ht
    rwa [Text.upper, String.toList_ofList, String.toList_singleton, String.toList_singleton, flatMap_singleton] at hc
  rw [ht] at h ⊢
  rcases cased_of_accented h with hsm | hcp
  · exact absurd hu (upperOf_ne hsm)
  · have all : ([1, 2].all fun index => (accented.map Char.toUpper).all fun d =>
        actionOf index (String.singleton d) == String.singleton d) := by decide
    exact eq_of_beq (all_eq_true.mp (all_eq_true.mp all index (by simpa using hi)) d hcp)

theorem valueOf_symbol {symbol : Char} (hs : Text.isLetter symbol = false) :
    valueOf? code (KeyMap.keyLine (code, layoutEffect index (String.singleton symbol))) =
      some (String.singleton symbol) := by
  refine valueOf_layoutEffect (.inl ⟨symbol, rfl⟩) fun h => ?_
  rw [isSingleLetter_singleton, hs] at h
  cases h

theorem shifted_symbol (h : Text.isLetter c = false) :
    ∃ d, shifted (String.singleton c) = String.singleton d ∧ Text.isLetter d = false := by
  rw [shifted, isSingleLetter_singleton, h, if_neg (by decide)]
  cases hf : shiftedSymbols.lookup (String.singleton c) with
  | none => exact ⟨c, rfl, h⟩
  | some symbol =>
    have all : (shiftedSymbols.all fun e => e.2.toList.length == 1 && e.2.toList.all (!Text.isLetter ·)) := by decide
    obtain ⟨hs, ho⟩ := Bool.and_eq_true_iff.mp (all_eq_true.mp all _ (mem_of_lookup hf))
    obtain ⟨d, ht⟩ := length_eq_one_iff.mp (beq_iff_eq.mp hs)
    refine ⟨d, String.toList_inj.mp (ht.trans (String.toList_singleton d).symm), ?_⟩
    rw [ht] at ho
    simpa using ho

end Letters

/-- A single character that is no capital. -/
def isBaseKey (key : String) : Bool :=
  match key.toList with
  | [c] => !Text.isLetter c || Text.lower key == key
  | _ => false

theorem exists_of_isBaseKey (h : isBaseKey key) :
    ∃ c, key = String.singleton c ∧ (Text.isLetter c → Text.lower key = key) := by
  unfold isBaseKey at h
  split at h
  · rename_i c ht
    refine ⟨c, String.toList_inj.mp (ht.trans (String.toList_singleton c).symm), fun hl => ?_⟩
    simpa [hl] using h
  · cases h

theorem valueOf_baseKey (hk : isBaseKey key) :
    valueOf? code (KeyMap.keyLine (code, layoutEffect 0 key)) = some key ∧
    valueOf? code (KeyMap.keyLine (code, layoutEffect 1 (shifted key))) = some (shifted key) ∧
    valueOf? code (KeyMap.keyLine (code, layoutEffect 2 (capital key))) = some (capital key) := by
  obtain ⟨c, rfl, hsm⟩ := exists_of_isBaseKey hk
  refine ⟨valueOf_layoutEffect (.inl ⟨c, rfl⟩) fun hsn _ => hsm (isSingleLetter_singleton c ▸ hsn), ?_⟩
  cases h : Text.isLetter c with
  | true =>
    rw [shifted, capital, isSingleLetter_singleton, h, if_pos rfl, if_pos rfl]
    exact ⟨valueOf_capital (.inl rfl) h, valueOf_capital (.inr rfl) h⟩
  | false =>
    obtain ⟨d, hs, hsy⟩ := shifted_symbol h
    rw [hs, capital, isSingleLetter_singleton, h, if_neg (by decide)]
    exact ⟨valueOf_symbol hsy, valueOf_symbol h⟩

theorem Placed.map (f : String → String) (hp : Placed layout code key) : Placed (layout.map (·.map f)) code (f key) := by
  obtain ⟨r, c, hc, h⟩ := hp
  obtain ⟨row, hr, h⟩ := Option.bind_eq_some_iff.mp h
  exact ⟨r, c, hc, by simp [hr, h]⟩

theorem Fits.map (f : String → String) (h : Fits layout) : Fits (layout.map (·.map f)) := by
  simpa [Fits, Function.comp_def] using h

theorem mem_of_placed (hp : Placed layout code key) : ∃ row ∈ layout, key ∈ row := by
  obtain ⟨r, c, -, h⟩ := hp
  obtain ⟨row, hr, h⟩ := Option.bind_eq_some_iff.mp h
  exact ⟨row, mem_of_getElem? hr, mem_of_getElem? h⟩

def spanishLayout : RowStagger where
  name := "Spanish"
  id := "-1"
  group := "126"
  layout := [["q", "w", "e", "r", "t", "y", "u", "i", "o", "p", "<", "&"],
    ["a", "s", "d", "f", "g", "h", "j", "k", "l", "ñ", "'"], ["z", "x", "c", "v", "b", "n", "m", ",", ".", "ß"]]

end Keylayout

end Keymap
