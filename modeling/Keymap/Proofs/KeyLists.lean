import Keymap.Header.Keys
import Keymap.Proofs.Texts

namespace Keymap

open List

namespace Text

variable {before after cs : List Char}

theorem takeWhile_stops {p : Char → Bool} (hs : ∀ c ∈ cs.head?, p c = false) :
    cs.takeWhile p = [] ∧ cs.dropWhile p = cs := by
  cases cs with
  | nil => exact ⟨rfl, rfl⟩
  | cons c cs =>
    have h : p c = false := hs c rfl
    simp [h]

theorem trim_around (hb : ∀ c ∈ before, isBlank c) (h : ∀ c ∈ after, isBlank c) :
    trim (String.ofList (before ++ cs ++ after)) = trim (String.ofList cs) := by
  have hed (front : List Char) : trimEndChars isBlank (front ++ after) = trimEndChars isBlank front := by
    rw [trimEndChars, reverse_append, dropWhile_append_of_pos fun c hm => h c (mem_reverse.mp hm)]
    rfl
  have hs : trimStartChars isBlank (before ++ cs ++ after) = trimStartChars isBlank (cs ++ after) := by
    rw [trimStartChars, append_assoc, dropWhile_append_of_pos hb]
    rfl
  rw [trim, trim, trimBy, trimBy, String.toList_ofList, String.toList_ofList, hs, trimStartChars, trimStartChars,
    dropWhile_append]
  split
  · rename_i he
    rw [isEmpty_iff.mp he, dropWhile_eq_nil_iff.mpr h]
  · rw [hed]

theorem exists_around_trim (s : String) : ∃ before after, s.toList = before ++ (trim s).toList ++ after ∧
    (∀ c ∈ before, isBlank c) ∧ ∀ c ∈ after, isBlank c := by
  let middle := s.toList.dropWhile isBlank
  refine ⟨s.toList.takeWhile isBlank, (middle.reverse.takeWhile isBlank).reverse, ?_, fun c => mem_takeWhile_imp,
    fun c hm => mem_takeWhile_imp (mem_reverse.mp hm)⟩
  have h : middle = (trim s).toList ++ (middle.reverse.takeWhile isBlank).reverse := by
    rw [trim, trimBy, String.toList_ofList, trimEndChars, trimStartChars, ← reverse_append,
      takeWhile_append_dropWhile, reverse_reverse]
  rw [append_assoc, ← h, takeWhile_append_dropWhile]

end Text

namespace Header

/-- Every parenthesis that is opened is closed again, and commas stand inside parentheses only; `depth` of them
are open where the text begins. -/
def isClosed (depth : Nat) : List Char → Bool
  | [] => depth == 0
  | c :: cs =>
    if c = '(' then isClosed (depth + 1) cs
    else if c = ')' then depth != 0 && isClosed (depth - 1) cs
    else if c = ',' then depth != 0 && isClosed depth cs
    else isClosed depth cs

/-- A text that can stand for one key in a row of keys. -/
structure IsKeycode (key : String) : Prop where
  present : key ≠ ""
  trimmed : Text.trim key = key
  closed : isClosed 0 key.toList = true

instance (key : String) : Decidable (IsKeycode key) :=
  decidable_of_iff (key ≠ "" ∧ Text.trim key = key ∧ isClosed 0 key.toList = true)
    ⟨fun ⟨present, trimmed, closed⟩ => ⟨present, trimmed, closed⟩,
      fun ⟨present, trimmed, closed⟩ => ⟨present, trimmed, closed⟩⟩

/-- The text has the keys in a row with a comma after each but the last. Around each key stands what `filler`
allows. -/
inductive Lists (filler : List Char → Prop) : List Char → List String → Prop
  | last {before after : List Char} {key : String} (isBefore : filler before) (isAfter : filler after) :
    Lists filler (before ++ key.toList ++ after) [key]
  | more {before after cs : List Char} {key : String} {keys : List String} (isBefore : filler before)
      (isAfter : filler after) (others : Lists filler cs keys) :
    Lists filler (before ++ key.toList ++ after ++ ',' :: cs) (key :: keys)

def Blank (cs : List Char) : Prop :=
  ∀ c ∈ cs, Text.isBlank c = true

instance (cs : List Char) : Decidable (Blank cs) :=
  decidable_of_iff (cs.all Text.isBlank = true) all_eq_true

variable {cs ds before after piece : List Char} {keys more : List String} {depth : Nat}

theorem Blank.append (h : Blank cs) (hs : Blank ds) : Blank (cs ++ ds) :=
  forall_mem_append.mpr ⟨h, hs⟩

theorem blank_spaces (n : Nat) : Blank (Text.spaces n).toList := by
  intro c h
  rw [Text.spaces, String.toList_ofList] at h
  rw [eq_of_mem_replicate h]
  decide

namespace Lists

theorem indent (blank : Blank before) (hl : Lists Blank cs keys) : Lists Blank (before ++ cs) keys := by
  cases hl with
  | @last first after key hb h =>
    rw [append_assoc first, ← append_assoc before, ← append_assoc]
    exact .last (blank.append hb) h
  | @more first after cs key keys hb h ho =>
    rw [← append_assoc, ← append_assoc, ← append_assoc]
    exact .more (blank.append hb) h ho

theorem trail (hl : Lists Blank cs keys) (blank : Blank after) : Lists Blank (cs ++ after) keys := by
  induction hl with
  | last hb h =>
    rw [append_assoc]
    exact .last hb (h.append blank)
  | more hb h _ ih =>
    rw [append_assoc, cons_append]
    exact .more hb h ih

theorem append (hf : Lists Blank cs keys) (hs : Lists Blank ds more) :
    Lists Blank (cs ++ ',' :: ds) (keys ++ more) := by
  induction hf with
  | last hb h => exact .more hb h hs
  | more hb h _ ih =>
    rw [append_assoc, cons_append]
    exact .more hb h ih

end Lists

theorem lists_padded (width : Nat) (hp : keys ≠ []) :
    Lists Blank (Text.join ", " (keys.map (Text.padRight width))).toList keys := by
  have own (key : String) : (Text.padRight width key).toList =
      [] ++ key.toList ++ (Text.spaces (width - key.length)).toList := by
    simp [Text.padRight]
  induction keys with
  | nil => exact absurd rfl hp
  | cons key keys ih =>
    cases keys with
    | nil =>
      rw [map_singleton, Text.join, String.intercalate_singleton, own]
      exact .last (by decide) (blank_spaces _)
    | cons next keys =>
      have ho := Lists.indent (by decide : Blank [' ']) (ih (cons_ne_nil _ _))
      have h : (Text.join ", " ((key :: next :: keys).map (Text.padRight width))).toList =
          [] ++ key.toList ++ (Text.spaces (width - key.length)).toList ++
            ',' :: ([' '] ++ (Text.join ", " ((next :: keys).map (Text.padRight width))).toList) := by
        rw [map_cons, map_cons, Text.join, String.intercalate_cons_cons, String.toList_append, String.toList_append, own]
        simp [Text.join]
      rw [h]
      exact .more (by decide) (blank_spaces _) ho

section Splitting

theorem splitFrom_closed (h : isClosed depth cs) (rest : List Char) :
    splitFrom '(' ')' ',' depth piece (cs ++ rest) = splitFrom '(' ')' ',' 0 (cs.reverse ++ piece) rest := by
  induction cs generalizing depth piece with
  | nil =>
    obtain rfl : depth = 0 := by simpa [isClosed] using h
    rfl
  | cons c cs ih =>
    rw [cons_append, splitFrom, reverse_cons, append_assoc, singleton_append]
    rw [isClosed] at h
    by_cases ho : c = '('
    · rw [if_pos ho] at h ⊢
      exact ih h
    rw [if_neg ho] at h ⊢
    by_cases hc : c = ')'
    · rw [if_pos hc, Bool.and_eq_true, bne_iff_ne] at h
      rw [if_pos hc, show (depth : Int) - 1 = (depth - 1 : Nat) by omega]
      exact ih h.2
    rw [if_neg hc] at h ⊢
    by_cases hcm : c = ','
    · rw [if_pos hcm, Bool.and_eq_true, bne_iff_ne] at h
      rw [if_neg (by omega)]
      exact ih h.2
    · rw [if_neg hcm] at h
      rw [if_neg (fun hb => hcm hb.1)]
      exact ih h

theorem splitFrom_blank (hb : Blank cs) (depth : Int) (piece rest : List Char) :
    splitFrom '(' ')' ',' depth piece (cs ++ rest) = splitFrom '(' ')' ',' depth (cs.reverse ++ piece) rest := by
  induction cs generalizing piece with
  | nil => rfl
  | cons c cs ih =>
    have h (mark : Char) (hv : Text.isBlank mark = false) : c ≠ mark := by
      rintro rfl
      exact absurd ((hb c mem_cons_self).symm.trans hv) (by decide)
    rw [cons_append, splitFrom, if_neg (h '(' (by decide)), if_neg (h ')' (by decide)),
      if_neg (fun hc => h ',' (by decide) hc.1), ih fun d hm => hb d (mem_cons_of_mem c hm)]
    simp

theorem splitFrom_around {key : String} (hb : Blank before) (h : Blank after)
    (hc : isClosed 0 key.toList) (rest : List Char) :
    splitFrom '(' ')' ',' 0 [] (before ++ key.toList ++ after ++ rest) =
      splitFrom '(' ')' ',' 0 (before ++ key.toList ++ after).reverse rest := by
  have hi : splitFrom '(' ')' ',' 0 before.reverse (key.toList ++ (after ++ rest)) =
      splitFrom '(' ')' ',' 0 (key.toList.reverse ++ before.reverse) (after ++ rest) := splitFrom_closed hc _
  rw [append_assoc, append_assoc, splitFrom_blank hb, append_nil, hi, splitFrom_blank h]
  simp

def trimmed (pieces : List (List Char)) : List String :=
  pieces.map fun piece => Text.trim (String.ofList piece)

/-- The keys of a row are found again, empty ones too. -/
theorem trimmed_of_lists (hl : Lists Blank cs keys)
    (own : ∀ key ∈ keys, Text.trim key = key ∧ isClosed 0 key.toList) :
    trimmed (splitFrom '(' ')' ',' 0 [] cs) = keys := by
  have piece {before after : List Char} {key : String} (hb : Blank before) (h : Blank after)
      (ht : Text.trim key = key) : Text.trim (String.ofList (before ++ key.toList ++ after)) = key := by
    rw [Text.trim_around hb h, String.ofList_toList, ht]
  induction hl with
  | last hb h =>
    obtain ⟨ht, hc⟩ := own _ mem_cons_self
    have cut := splitFrom_around hb h hc []
    rw [append_nil] at cut
    rw [cut, splitFrom, reverse_reverse, trimmed, map_singleton, piece hb h ht]
  | more hb h _ ih =>
    obtain ⟨⟨ht, hc⟩, own⟩ := forall_mem_cons.mp own
    rw [splitFrom_around hb h hc, splitFrom, if_neg (by decide), if_neg (by decide),
      if_pos ⟨rfl, rfl⟩, reverse_reverse, trimmed, map_cons, piece hb h ht, ← trimmed, ih own]

theorem splitKeys_of_lists {text : String} (hl : Lists Blank text.toList keys)
    (hk : ∀ key ∈ keys, IsKeycode key) : splitKeys text = keys := by
  have hf := trimmed_of_lists hl fun key h => ⟨(hk key h).trimmed, (hk key h).closed⟩
  rw [splitKeys, trimPieces, map_map]
  change filter _ (trimmed _) = keys
  rw [hf]
  exact filter_eq_self.mpr fun key h => by simp [(hk key h).present]

theorem splitFrom_before (hb : Blank before) (depth : Int) (piece cs : List Char) :
    trimmed (splitFrom '(' ')' ',' depth (piece ++ before.reverse) cs) =
      trimmed (splitFrom '(' ')' ',' depth piece cs) := by
  have own (piece : List Char) : Text.trim (String.ofList (piece ++ before.reverse).reverse) =
      Text.trim (String.ofList piece.reverse) := by
    have h := @Text.trim_around before [] piece.reverse hb (by simp)
    simpa using h
  induction cs generalizing piece depth with
  | nil => simp only [splitFrom, trimmed, map_singleton, own]
  | cons c cs ih =>
    rw [splitFrom, splitFrom]
    split_ifs
    · exact ih _ (c :: piece)
    · exact ih _ (c :: piece)
    · simp only [trimmed, map_cons, own]
    · exact ih _ (c :: piece)

theorem splitFrom_after (h : Blank after) (depth : Int) (piece cs : List Char) :
    trimmed (splitFrom '(' ')' ',' depth piece (cs ++ after)) = trimmed (splitFrom '(' ')' ',' depth piece cs) := by
  induction cs generalizing piece depth with
  | nil =>
    have hw := splitFrom_blank h depth piece []
    rw [append_nil] at hw
    rw [nil_append, hw, splitFrom, splitFrom, trimmed, trimmed, map_singleton, map_singleton, reverse_append,
      reverse_reverse]
    exact congrArg ([·]) (@Text.trim_around [] after piece.reverse (by simp) h)
  | cons c cs ih =>
    rw [cons_append, splitFrom, splitFrom]
    split_ifs
    · exact ih _ _
    · exact ih _ _
    · exact congrArg (_ :: ·) (ih _ _)
    · exact ih _ _

theorem splitKeys_around {text core : String} (h : Blank before) (hb : Blank after)
    (ht : text.toList = before ++ core.toList ++ after) : splitKeys text = splitKeys core := by
  have hs : trimmed (splitFrom '(' ')' ',' 0 [] text.toList) = trimmed (splitFrom '(' ')' ',' 0 [] core.toList) := by
    rw [ht, splitFrom_after hb, splitFrom_blank h, append_nil]
    exact splitFrom_before h 0 [] core.toList
  simpa only [splitKeys, trimPieces, map_map, trimmed, Function.comp_def] using congrArg (filter fun key => !key.isEmpty) hs

theorem splitKeys_trim (text : String) : splitKeys (Text.trim text) = splitKeys text := by
  obtain ⟨before, after, ht, hb, h⟩ := Text.exists_around_trim text
  exact (splitKeys_around hb h ht).symm

end Splitting

end Header

end Keymap
