import Keymap.Proofs.PaddedKeys
import Keymap.Proofs.SpelledKeys

namespace Keymap

open List

namespace Zmk

def tapsMagic (key : String) : Bool :=
  key == "MAGIC" || match Vocabulary.parts key with
    | [wrapper, tap] => wrapper == "ALGR_T" && tap == "MAGIC"
    | [wrapper, _, tap] => ["hrm", "lt", "mt"].contains wrapper && tap == "MAGIC"
    | _ => false

def holdsShift (key : String) : Bool :=
  key == "LSFT" || match Vocabulary.parts key with
    | [wrapper, hold, _] => ["hrm", "mt"].contains wrapper && hold == "LSFT"
    | _ => false

def asSaid (argument : String) : List String :=
  if (Standard.allKeycodes.lookup (.word argument)).isSome then [] else [argument]

theorem isSome_magic : (Standard.allKeycodes.lookup (.word "MAGIC")).isSome := by decide +kernel

theorem key_ne_of_parts {key wrapper argument : String} {arguments : List String}
    (h : Vocabulary.parts key = wrapper :: argument :: arguments) : key ≠ "MAGIC" ∧ key ≠ "LSFT" := by
  have hm : Vocabulary.parts "MAGIC" = ["MAGIC"] := by decide
  have hs : Vocabulary.parts "LSFT" = ["LSFT"] := by decide
  constructor
  · rintro rfl
    simp [hm] at h
  · rintro rfl
    simp [hs] at h

def saidIn (key : String) : List String :=
  match Vocabulary.parts key with
  | [wrapper, said] =>
    if wrapper = "ALGR_T" then asSaid said
    else if wrapper ∈ ["bt", "df", "osl"] then [said] else []
  | [wrapper, first, second] =>
    if wrapper = "sm" then [Text.lower first ++ "_" ++ Text.lower second]
    else if wrapper ∈ ["hrm", "lt", "mt"] then first :: asSaid second else []
  | _ => []

def seesMagic (key : String) : Bool :=
  tapsMagic key || (saidIn key).any (Text.marked magicMarks)

def seesShift (key : String) : Bool :=
  (holdsShift key && key != "LSFT") || (saidIn key).any (Text.marked shiftMarks)

/-- Marks that the fixed words of bindings do not show, apart from those of the magic key. -/
structure Telling (family : String) (marks : List String) (ofMagic : Bool) : Prop where
  magic : Text.marked marks ("&ak_" ++ family) = ofMagic
  wrapped : ∀ wrapper ∈ ["lt", "mt"], Text.marked marks ("&" ++ wrapper ++ "_ak_" ++ family) = ofMagic
  fixed : ∀ word ∈ ["&none", "&hml", "&hmr", "&lt", "&mt", "&bt", "&to", "&sl", "RALT", "0"],
    Text.marked marks word = false
  listed : ∀ text, Text.marked (magicMarks ++ shiftMarks) text = false → Text.marked marks text = false
  started : ∀ start ∈ ["&sm_", "BT_"], ∀ text, Text.marked marks (start ++ text) = Text.marked marks text

namespace Telling

variable {family : String}

theorem magicMarks_telling : Telling family magicMarks true where
  magic := Text.marked_of_start (by decide) family
  wrapped wrapper member := by
    simp only [mem_cons, not_mem_nil, or_false] at member
    rcases member with rfl | rfl
    · exact Text.marked_of_start (show "&lt_ak_" ∈ magicMarks by decide) family
    · exact Text.marked_of_start (show "&mt_ak_" ∈ magicMarks by decide) family
  fixed := by decide
  listed text plain := (Text.marked_append_marks plain).1
  started start member text := by
    simp only [mem_cons, not_mem_nil, or_false] at member
    rcases member with rfl | rfl
    · exact Text.marked_append_of_clears (by decide)
    · exact Text.marked_append_of_clears (by decide)

theorem shiftMarks_telling (lacks : 'F' ∉ family.toList) : Telling family shiftMarks false where
  magic := Text.marked_of_lacks 'F' (by decide) (by simp [String.toList_append, lacks])
  wrapped wrapper member := by
    simp only [mem_cons, not_mem_nil, or_false] at member
    refine Text.marked_of_lacks 'F' (by decide) ?_
    rcases member with rfl | rfl <;> simp [String.toList_append, lacks]
  fixed := by decide
  listed text plain := (Text.marked_append_marks plain).2
  started start member text := by
    simp only [mem_cons, not_mem_nil, or_false] at member
    rcases member with rfl | rfl
    · exact Text.marked_append_of_clears (by decide)
    · exact Text.marked_append_of_clears (by decide)

variable {marks : List String} {ofMagic : Bool} (telling : Telling family marks ofMagic)

include telling

theorem argument {said word : String} (argument : Argument family said word) :
    Text.marked marks word = ((ofMagic && said == "MAGIC") || (asSaid said).any (Text.marked marks)) := by
  cases argument with
  | magic =>
    rw [telling.magic, asSaid, if_pos isSome_magic]
    simp
  | listed h listed hp =>
    rw [telling.listed _ hp, asSaid, if_pos listed, beq_false_of_ne h]
    simp
  | unlisted ha =>
    have h : said ≠ "MAGIC" := by
      rintro rfl
      exact absurd isSome_magic (by rw [ha]; decide)
    rw [asSaid, ha, beq_false_of_ne h]
    simp

theorem spelled {key : String} {words : List String} (spelled : Spelled family key words) :
    words.any (Text.marked marks) = ((ofMagic && tapsMagic key) || (saidIn key).any (Text.marked marks)) := by
  cases spelled with
  | magic hm =>
    subst hm
    have ht : tapsMagic "MAGIC" := by decide
    have hnt : saidIn "MAGIC" = [] := by decide
    simp [telling.magic, ht, hnt]
  | listed ho hs hp =>
    simp [tapsMagic, saidIn, hs, ho, telling.listed _ hp]
  | @unknown wrapper arguments ho h unknown =>
    simp only [Standard.behaviors, Standard.behavior, map_cons, map_nil, mem_cons,
      Field.word.injEq, not_mem_nil, or_false, not_or] at unknown
    have hn := telling.fixed "&none" (by decide)
    rcases arguments with _ | ⟨_, _ | ⟨_, _ | ⟨_, _⟩⟩⟩
    · simp [tapsMagic, saidIn, h, ho, hn]
    · simp [tapsMagic, saidIn, h, ho, hn, unknown]
    · simp [tapsMagic, saidIn, h, ho, hn, unknown]
    · simp [tapsMagic, saidIn, h, ho, hn]
  | morph h =>
    simp [tapsMagic, saidIn, h, key_ne_of_parts h, telling.started "&sm_" (by decide)]
  | magicTap hw h =>
    have ho := beq_false_of_ne (key_ne_of_parts h).1
    have hz := telling.fixed "0" (by decide)
    rw [any_cons, telling.wrapped _ hw]
    simp only [mem_cons, not_mem_nil, or_false] at hw
    rcases hw with rfl | rfl
    all_goals simp [tapsMagic, saidIn, asSaid, isSome_magic, h, ho, hz]
  | held hw h ha =>
    have ho := beq_false_of_ne (key_ne_of_parts h).1
    have hwr := telling.argument ha
    simp only [mem_cons, Prod.mk.injEq, not_mem_nil, or_false] at hw
    rcases hw with ⟨rfl, rfl⟩ | ⟨rfl, rfl⟩ | ⟨rfl, rfl⟩ | ⟨rfl, rfl⟩
    all_goals
      rw [any_cons, telling.fixed _ (by decide)]
      simp [tapsMagic, saidIn, h, ho, hwr, Bool.or_left_comm]
  | tapped h ha =>
    have ho := beq_false_of_ne (key_ne_of_parts h).1
    simp [tapsMagic, saidIn, h, ho, telling.fixed "&mt" (by decide), telling.fixed "RALT" (by decide),
      telling.argument ha]
  | bluetooth h =>
    simp [tapsMagic, saidIn, h, key_ne_of_parts h, telling.fixed "&bt" (by decide),
      telling.started "BT_" (by decide)]
  | layer hw h =>
    have ho := beq_false_of_ne (key_ne_of_parts h).1
    simp only [mem_cons, Prod.mk.injEq, not_mem_nil, or_false] at hw
    rcases hw with ⟨rfl, rfl⟩ | ⟨rfl, rfl⟩
    all_goals
      rw [any_cons, telling.fixed _ (by decide)]
      simp [tapsMagic, saidIn, h, ho]

end Telling

theorem not_mem_familyLabel (name : String) : 'F' ∉ (familyLabel name).toList := by
  intro h
  rw [familyLabel, Text.replace, if_neg (by decide), String.toList_ofList] at h
  rcases Text.mem_of_mem_replaceFrom h with hn | hl
  · simp at hn
  · exact Text.not_mem_lower_capital name hl

theorem said_of_holdsShift {key : String} (h : holdsShift key) (ho : key ≠ "LSFT") :
    (saidIn key).any (Text.marked shiftMarks) := by
  rw [holdsShift, beq_false_of_ne ho, Bool.false_or] at h
  split at h
  · rename_i wrapper hold tap hp
    simp only [contains_cons, contains_nil, Bool.or_false, Bool.and_eq_true, Bool.or_eq_true, beq_iff_eq] at h
    obtain ⟨hw, rfl⟩ := h
    have hm : Text.marked shiftMarks "LSFT" := by decide
    rcases hw with rfl | rfl
    all_goals simp [saidIn, hp, hm]
  · cases h

def Shows (key : String) (code : Document) : Prop :=
  isMagicBinding code = .ok (seesMagic key) ∧ isShiftBinding code = .ok (seesShift key)

theorem StandardFor.shows {t : Encoder} {name key : String} {i code : Document} (standard : StandardFor name t)
    (hd : value t ⟨.text name, i⟩ key = .ok code) : Shows key code := by
  obtain ⟨text, rfl, words, hs, rfl⟩ := standard.value_spelled hd
  obtain ⟨word, rest, rfl⟩ : ∃ word rest, words = word :: rest := by cases hs <;> exact ⟨_, _, rfl⟩
  have ha (marks : List String) (s : String) :
      marks.anyM (fun mark => (Document.text s).has mark) = .ok (Text.marked marks s) :=
    anyM_pure
  constructor
  · refine (ha magicMarks _).trans ?_
    rw [Text.marked_join (by decide), Telling.magicMarks_telling.spelled hs, Bool.true_and]
    rfl
  · refine (ha shiftMarks _).trans ?_
    rw [Text.marked_join (by decide), (Telling.shiftMarks_telling (not_mem_familyLabel name)).spelled hs,
      Bool.false_and, Bool.false_or, seesShift]
    cases h : holdsShift key && key != "LSFT" with
    | false => rw [Bool.false_or]
    | true =>
      obtain ⟨h, ho⟩ := Bool.and_eq_true_iff.mp h
      rw [said_of_holdsShift h (by simpa using ho)]
      rfl

def together (row : List Entry) : Bool :=
  (row.any fun entry => seesMagic entry.text) && row.any fun entry => seesShift entry.text

theorem hasMagicAndShift_eq {codes : List Document} {positions : List Nat} {row : List Entry}
    (h : Forall₂ (fun entry code => Shows entry.text code) row (positions.filterMap fun i => codes[i]?)) :
    hasMagicAndShift codes positions = .ok (together row) := by
  rw [hasMagicAndShift]
  generalize (positions.filterMap fun i => codes[i]?) = found at h
  have hk : (found.mapM fun binding => do
      return (← isMagicBinding binding, ← isShiftBinding binding) : Result (List (Bool × Bool))) =
      .ok (row.map fun entry => (seesMagic entry.text, seesShift entry.text)) := by
    rw [mapM_eq_ok, forall₂_map_right_iff]
    refine h.flip.imp fun code entry hs => ?_
    rw [hs.1, ok_bind, hs.2]
    rfl
  rw [hk, ok_bind, together]
  simp [ok_pure, Function.comp_def]

theorem colocation_eq {layer : CompiledLayer} {onLeft onRight : Bool} {left right : List Nat}
    (h : thumbClusters layer.keycodes.length = (left, right))
    (hl : hasMagicAndShift layer.keycodes left = .ok onLeft)
    (hr : hasMagicAndShift layer.keycodes right = .ok onRight) : colocation layer = .ok ⟨onLeft, onRight⟩ := by
  rw [colocation, h]
  dsimp only
  rw [hl, ok_bind, hr]
  rfl

end Zmk

namespace Padding

theorem length_of_pad {board : Board} {layer : Layer} {keys padded : List String}
    (hk : board.layoutSize.PlacesCore) (hf : keys.length = 36)
    (hd : pad board layer keys = .ok padded) : board.layoutSize.keyCount? = some padded.length := by
  rcases hk with h | h | h
  · simp only [pad, h] at hd
    obtain rfl := Except.ok.inj hd
    rw [h, hf]
    rfl
  · simp only [pad, h] at hd
    obtain ⟨left, right, rfl⟩ := padTo42_eq_ok hd
    rw [h, length_to42 hf]
    rfl
  · simp only [pad, h] at hd
    obtain ⟨left, right, rfl⟩ := padTo38_eq_ok hd
    rw [h, length_to38 hf]
    rfl

end Padding

namespace Compiler

variable {c : Compiler} {layer : Layer} {board : Board} {name : String} {compiled : CompiledLayer}
  {l₀ l₁ l₂ r₀ r₁ r₂ left right : List Entry}

theorem thumbs_shown (standard : Zmk.StandardFor name c.zmk) (isName : layer.name = .text name)
    (noFull : layer.fullLayout = none) (isCore : layer.core = some ⟨[l₀, l₁, l₂, r₀, r₁, r₂, left, right]⟩)
    (shape : [l₀, l₁, l₂, r₀, r₁, r₂, left, right].map length = [5, 5, 5, 5, 5, 5, 3, 3])
    (zmk : board.firmware = .zmk) (known : board.layoutSize.PlacesCore)
    (done : (c.compile layer board).1 = .ok compiled) :
    board.layoutSize.keyCount? = some compiled.keycodes.length ∧ ∀ j entry, (left ++ right)[j]? = some entry →
        ∃ code, compiled.keycodes[corePlace board.layoutSize (30 + j)]? = some code ∧
          Zmk.Shows entry.text code := by
  simp only [map_cons, map_nil, cons.injEq, and_true] at shape
  obtain ⟨top, hh, hb, htp, hhm, hbt, hth, htm⟩ := shape
  have hfr : (l₀ ++ r₀ ++ l₁ ++ r₁ ++ l₂ ++ r₂).length = 30 := by
    simp only [length_append, top, hh, hb, htp, hhm, hbt]
  let core : KeyGrid := ⟨[l₀, l₁, l₂, r₀, r₁, r₂, left, right]⟩
  have hf : core.flatten = l₀ ++ r₀ ++ l₁ ++ r₁ ++ l₂ ++ r₂ ++ (left ++ right) := by
    rw [← append_assoc]
    rfl
  have hfl : (core.flatten.map Entry.text).length = 36 := by
    rw [length_map, hf, length_append, hfr, length_append, hth, htm]
  obtain ⟨keys, h, hcd⟩ := compile_zmk_getElem? c layer board compiled zmk done
  obtain ⟨-, keys', hky, hcs⟩ := compile_encodes done
  obtain rfl := Except.ok.inj (h.symm.trans hky)
  simp only [Compile.keys, noFull, isCore] at h
  have hc := (mapM_eq_ok.mp hcs).length_eq
  rw [length_zipIdx] at hc
  refine ⟨hc ▸ Padding.length_of_pad known hfl h, fun j entry ht => ?_⟩
  have htb : j < 6 := by
    have hi := (List.getElem?_eq_some_iff.mp ht).1
    rwa [length_append, hth, htm] at hi
  have hp := Padding.pad_corePlace board layer _ keys known hfl h (30 + j) (by omega)
  have htx : (core.flatten.map Entry.text)[30 + j]? = some entry.text := by
    rw [getElem?_map, hf, getElem?_append_right (by omega), hfr, Nat.add_sub_cancel_left, ht]
    rfl
  obtain ⟨code, hco, hv⟩ := hcd _ _ (hp.trans htx)
  rw [isName] at hv
  exact ⟨code, hco, standard.shows hv⟩

/-- On boards with 36 and 42 keys the thumbs of each hand are reported as they are seen. On a board with 38
keys the last two thumbs of the right hand are reported as those of the left. -/
theorem colocation_reports_seen (standard : Zmk.StandardFor name c.zmk) (isName : layer.name = .text name)
    (noFull : layer.fullLayout = none) (isCore : layer.core = some ⟨[l₀, l₁, l₂, r₀, r₁, r₂, left, right]⟩)
    (shape : [l₀, l₁, l₂, r₀, r₁, r₂, left, right].map List.length = [5, 5, 5, 5, 5, 5, 3, 3])
    (zmk : board.firmware = .zmk) (known : board.layoutSize.PlacesCore)
    (done : (c.compile layer board).1 = .ok compiled) :
    Zmk.colocation compiled = .ok (match board.layoutSize with
      | .totem38 => ⟨Zmk.together (right.drop 1), false⟩
      | _ => ⟨Zmk.together left, Zmk.together right⟩) := by
  obtain ⟨count, shown⟩ := thumbs_shown standard isName noFull isCore shape zmk known done
  simp only [List.map_cons, List.map_nil, List.cons.injEq, and_true] at shape
  obtain ⟨-, -, -, -, -, -, thumbs, thumbs'⟩ := shape
  obtain ⟨a₀, a₁, a₂, rfl⟩ := List.length_eq_three.mp thumbs
  obtain ⟨b₀, b₁, b₂, rfl⟩ := List.length_eq_three.mp thumbs'
  obtain ⟨x₀, isX₀, showsX₀⟩ := shown 0 a₀ rfl
  obtain ⟨x₁, isX₁, showsX₁⟩ := shown 1 a₁ rfl
  obtain ⟨x₂, isX₂, showsX₂⟩ := shown 2 a₂ rfl
  obtain ⟨y₀, isY₀, showsY₀⟩ := shown 3 b₀ rfl
  obtain ⟨y₁, isY₁, showsY₁⟩ := shown 4 b₁ rfl
  obtain ⟨y₂, isY₂, showsY₂⟩ := shown 5 b₂ rfl
  have length : ∀ {n}, board.layoutSize.keyCount? = some n → compiled.keycodes.length = n :=
    fun isCount => Option.some.inj (count.symm.trans isCount)
  rcases known with size | size | size
  all_goals
    simp only [size, corePlace, Nat.reduceAdd, Nat.reduceLT, if_false] at isX₀ isX₁ isX₂ isY₀ isY₁ isY₂ ⊢
    rw [size] at length
  · have clusters : Zmk.thumbClusters compiled.keycodes.length = ([30, 31, 32], [33, 34, 35]) := by
      rw [length rfl]
      rfl
    refine Zmk.colocation_eq clusters (Zmk.hasMagicAndShift_eq ?_) (Zmk.hasMagicAndShift_eq ?_)
    · simp [isX₀, isX₁, isX₂, showsX₀, showsX₁, showsX₂]
    · simp [isY₀, isY₁, isY₂, showsY₀, showsY₁, showsY₂]
  · have clusters : Zmk.thumbClusters compiled.keycodes.length = ([36, 37, 38], [39, 40, 41]) := by
      rw [length rfl]
      rfl
    refine Zmk.colocation_eq clusters (Zmk.hasMagicAndShift_eq ?_) (Zmk.hasMagicAndShift_eq ?_)
    · simp [isX₀, isX₁, isX₂, showsX₀, showsX₁, showsX₂]
    · simp [isY₀, isY₁, isY₂, showsY₀, showsY₁, showsY₂]
  · -- The clusters of a board with 42 keys: the left one begins at the second thumb of the right hand.
    have clusters : Zmk.thumbClusters compiled.keycodes.length = ([36, 37, 38], [39, 40, 41]) := by
      rw [length rfl]
      rfl
    have beyond : ∀ i, 38 ≤ i → compiled.keycodes[i]? = none := by
      intro i outside
      rw [List.getElem?_eq_none_iff, length rfl]
      exact outside
    have nothing : List.Forall₂ (fun (entry : Entry) code => Zmk.Shows entry.text code) []
        ([39, 40, 41].filterMap fun i => compiled.keycodes[i]?) := by simp [beyond]
    refine Zmk.colocation_eq clusters (Zmk.hasMagicAndShift_eq ?_) (Zmk.hasMagicAndShift_eq nothing)
    simp [isY₁, isY₂, beyond, showsY₁, showsY₂]

def thumbCompiler : Compiler where
  zmk := {
    vocabulary := ⟨Standard.behaviors.map Standard.ruleOf, Standard.allKeycodes⟩
    magic := some [⟨"BASE_NIGHT", .whole 150, .record [("A", "E")], "REPEAT"⟩] }

def thumbLayer (thumbs : List String) : Layer where
  name := "BASE_NIGHT"
  core := some ⟨List.replicate 6 (List.replicate 5 (.key "A")) ++
    [thumbs.map .key, List.replicate 3 (.key "A")]⟩

theorem thumbs_not_reported : (∀ thumbs ∈ [["MAGIC", "A", "LSFT"], ["MAGIC", "A", "mt:LSFT:X"]],
      (thumbs.any Zmk.tapsMagic && thumbs.any Zmk.holdsShift) = true) ∧
    (∃ compiled, (thumbCompiler.compile (thumbLayer ["MAGIC", "A", "LSFT"]) (sampleBoard .split36)).1 =
      .ok compiled ∧ Zmk.colocation compiled = .ok ⟨false, false⟩) ∧
    ∃ compiled, (thumbCompiler.compile (thumbLayer ["MAGIC", "A", "mt:LSFT:X"]) (sampleBoard .totem38)).1 =
      .ok compiled ∧ Zmk.colocation compiled = .ok ⟨false, false⟩ := by
  have standard : Zmk.StandardFor "BASE_NIGHT" thumbCompiler.zmk :=
    ⟨Standard.aliases_eq_ok, rfl, by decide, _, rfl, by decide⟩
  refine ⟨by decide, ?_, ?_⟩
  · obtain ⟨compiled, done⟩ : ∃ compiled, (thumbCompiler.compile (thumbLayer ["MAGIC", "A", "LSFT"])
        (sampleBoard .split36)).1 = .ok compiled := exists_eq_ok (by decide +kernel)
    refine ⟨compiled, done, (colocation_reports_seen standard rfl rfl rfl rfl rfl (.inl rfl) done).trans ?_⟩
    decide +kernel
  · obtain ⟨compiled, done⟩ : ∃ compiled, (thumbCompiler.compile (thumbLayer ["MAGIC", "A", "mt:LSFT:X"])
        (sampleBoard .totem38)).1 = .ok compiled := exists_eq_ok (by decide +kernel)
    refine ⟨compiled, done, (colocation_reports_seen standard rfl rfl rfl rfl rfl (.inr (.inr rfl)) done).trans ?_⟩
    decide +kernel

end Compiler

end Keymap
