import Keymap.Drawing.Legend
import Keymap.Drawing.Marker
import Keymap.Proofs.HoldTaps
import Keymap.Proofs.KeyLists
import Keymap.Proofs.QuotedScalars

namespace Keymap

open List

namespace Text.Pattern

variable {α : Type} {p : Char → Bool}

/-- Nothing is gained by a shorter run, as what follows needs a character outside it or accepts anything. -/
def Greedy (p : Char → Bool) (next : List Char → Option α) : Prop :=
  (∀ c cs, p c = true → next (c :: cs) = none) ∨ ∀ cs, (next cs).isSome = true

theorem takeRun_eq {next : List Char → Option α} (hg : Greedy p next) (cs : List Char) :
    takeRun p next cs = next (cs.dropWhile p) := by
  induction cs with
  | nil => rfl
  | cons c cs ih =>
    rw [takeRun]
    by_cases h : p c
    · rw [if_pos h, dropWhile_cons_of_pos h, ih]
      cases hf : next (cs.dropWhile p) with
      | some a => rfl
      | none =>
        rcases hg with hs | accepts
        · exact hs c cs h
        · exact absurd (accepts (cs.dropWhile p)) (by simp [hf])
    · rw [if_neg h, dropWhile_cons_of_neg h]

variable {next : List Char → List Span → Option α} {kept : List Span}

theorem matchThen_seq (first second : Pattern) (cs : List Char) : matchThen (seq first second) cs kept next =
    matchThen first cs kept fun rest kept => matchThen second rest kept next := by
  rw [matchThen]

theorem matchThen_empty (cs : List Char) : matchThen empty cs kept next = next cs kept := by
  simp [empty, matchThen]

theorem matchThen_run (cs : List Char) (hg : ∀ rest, Greedy p fun cs => next cs (kept ++ [⟨rest, cs⟩])) :
    matchThen (group (atLeastOne p)) cs kept next =
      if cs.takeWhile p = [] then none else next (cs.dropWhile p) (kept ++ [⟨cs, cs.dropWhile p⟩]) := by
  cases cs with
  | nil => rfl
  | cons c cs =>
    simp only [atLeastOne, matchThen]
    by_cases h : p c
    · rw [if_pos h, takeRun_eq (hg (c :: cs)), takeWhile_cons_of_pos h, dropWhile_cons_of_pos h]
      simp
    · rw [if_neg h, takeWhile_cons_of_neg h]
      simp

theorem text_span (cs : List Char) : Span.text ⟨cs, cs.dropWhile p⟩ = String.ofList (cs.takeWhile p) := by
  have hp := congrArg length (takeWhile_append_dropWhile (p := p) (l := cs))
  rw [length_append] at hp
  have h : cs.length - (cs.dropWhile p).length = (cs.takeWhile p).length := by omega
  rw [Span.text, h, ← prefix_iff_eq_take.mp <| takeWhile_prefix p]

def dropMark (p : Char → Bool) : List Char → List Char
  | [] => []
  | c :: cs => if p c then cs else c :: cs

theorem matchThen_optional (accepts : ∀ cs kept, (next cs kept).isSome) (cs : List Char) :
    matchThen (optional (one p)) cs kept next = next (dropMark p cs) kept := by
  cases cs with
  | nil => simp [optional, empty, matchThen, dropMark]
  | cons c cs =>
    obtain ⟨a, h⟩ := Option.isSome_iff_exists.mp (accepts cs kept)
    by_cases hh : p c = true <;> simp [optional, empty, matchThen, dropMark, hh, h]

end Text.Pattern

namespace Drawing

open Text (Pattern)

variable {c : Char} {cs : List Char} {q : List Char}

def inTap (c : Char) : Bool := !(c == '|' || isQuoteMark c)

def inShifted (c : Char) : Bool := !(isQuoteMark c || Text.isBlank c)

/-- The two legends of a marker, read behind its name, and what follows them. -/
def legends? (body : List Char) : Option (List Char × List Char × List Char) :=
  if body.takeWhile inTap = [] then none
  else match body.dropWhile inTap with
    | [] => none
    | c :: rest =>
      if c = '|' ∧ rest.takeWhile inShifted ≠ [] then
        some (body.takeWhile inTap, rest.takeWhile inShifted,
          Pattern.dropMark isQuoteMark (rest.dropWhile inShifted))
      else none

variable {next : List Char → List Pattern.Span → Option Pattern.Found} {kept : List Pattern.Span}

def shiftedPattern : Pattern :=
  .all [.group (.atLeastOne inShifted), .optional (.one isQuoteMark)]

theorem matchThen_shifted (accepts : ∀ cs kept, (next cs kept).isSome) (cs : List Char) :
    shiftedPattern.matchThen cs kept next =
      if cs.takeWhile inShifted = [] then none
      else next (Pattern.dropMark isQuoteMark (cs.dropWhile inShifted)) (kept ++ [⟨cs, cs.dropWhile inShifted⟩]) := by
  simp only [shiftedPattern, Pattern.all, foldr, Pattern.matchThen_seq, Pattern.matchThen_empty,
    Pattern.matchThen_optional accepts]
  exact Pattern.matchThen_run cs fun rest => .inr fun cs => accepts _ _

theorem matchThen_bar (cs : List Char) : (Pattern.text "|").matchThen cs kept next =
    match cs with
    | [] => none
    | c :: rest => if c = '|' then next rest kept else none := by
  cases cs with
  | nil => rfl
  | cons c rest =>
    by_cases bar : c = '|'
    · rw [bar]
      rfl
    · have h : ['|'].isPrefixOf (c :: rest) = false := by simp [isPrefixOf, Ne.symm bar]
      show (if ['|'].isPrefixOf (c :: rest) then _ else none) = _
      simp [h, bar]

def bodyPattern : Pattern :=
  .all [.group (.atLeastOne inTap), .text "|", .group (.atLeastOne inShifted), .optional (.one isQuoteMark)]

theorem matchThen_body (n : Nat) (body : List Char) :
    bodyPattern.matchThen body [] (fun rest kept => some ⟨n - rest.length, kept.map Pattern.Span.text⟩) =
      (legends? body).map fun (tap, shifted, rest) =>
        (⟨n - rest.length, [String.ofList tap, String.ofList shifted]⟩ : Pattern.Found) := by
  let final : List Char → List Pattern.Span → Option Pattern.Found :=
    fun rest kept => some ⟨n - rest.length, kept.map Pattern.Span.text⟩
  have hb : bodyPattern.matchThen body [] final = (Pattern.group (.atLeastOne inTap)).matchThen body []
      fun rest kept => (Pattern.text "|").matchThen rest kept fun rest kept =>
      shiftedPattern.matchThen rest kept final := rfl
  have accepts : ∀ cs kept, (final cs kept).isSome := fun _ _ => rfl
  rw [hb, Pattern.matchThen_run, matchThen_bar, legends?]
  · split
    · rfl
    · have h := Pattern.text_span (p := inTap) body
      cases hrs : body.dropWhile inTap with
      | nil => rfl
      | cons c rest =>
        rw [hrs] at h
        simp only [matchThen_shifted accepts, nil_append]
        by_cases bar : c = '|'
        · subst bar
          by_cases hn : rest.takeWhile inShifted = [] <;> simp [hn, final, h, Pattern.text_span]
        · simp [bar]
  · refine fun rest => .inl fun c cs hr => (matchThen_bar (c :: cs)).trans (if_neg ?_)
    rintro rfl
    exact absurd hr (by decide)

def namedPattern : Pattern :=
  .seq (.text "SM") (.seq (.one fun c => c == ' ' || c == '_') (.seq (.text "MARKER:") bodyPattern))

theorem matchThen_named (body : List Char) :
    namedPattern.matchThen ("SM_MARKER:".toList ++ body) kept next = bodyPattern.matchThen body kept next := by
  rfl

theorem matchThen_named_quote (h : isQuoteMark c) (cs : List Char) :
    namedPattern.matchThen (c :: cs) kept next = none := by
  have ho : c ≠ 'S' := by
    rintro rfl
    exact absurd h (by decide)
  have outside : "SM".toList.isPrefixOf (c :: cs) = false := by simp [isPrefixOf, Ne.symm ho]
  show (if "SM".toList.isPrefixOf (c :: cs) then _ else none) = none
  rw [outside]
  rfl

/-- What may stand around a marker. -/
def IsEnclosing (q : List Char) : Prop :=
  q = [] ∨ ∃ c, q = [c] ∧ isQuoteMark c = true

theorem matchFront_marker (h : IsEnclosing q) (body : List Char) :
    markerPattern.matchFront (q ++ ("SM_MARKER:".toList ++ body)) =
      (legends? body).map fun (tap, shifted, rest) =>
        (⟨(q ++ ("SM_MARKER:".toList ++ body)).length - rest.length, [String.ofList tap, String.ofList shifted]⟩ :
          Pattern.Found) := by
  rw [← matchThen_body, ← matchThen_named, Pattern.matchFront]
  generalize (fun (rest : List Char) (kept : List Pattern.Span) =>
    some (⟨_ - rest.length, kept.map Pattern.Span.text⟩ : Pattern.Found)) = next
  have hm : markerPattern = .seq (.either (.one isQuoteMark) .empty) namedPattern := rfl
  rw [hm, Pattern.matchThen_seq, Pattern.matchThen, Pattern.matchThen_empty]
  rcases h with rfl | ⟨c, rfl, h⟩
  · rfl
  · simp only [cons_append, nil_append, Pattern.matchThen, h, if_true, matchThen_named_quote h]
    split
    · rename_i hf
      exact hf.symm
    · rename_i hn
      exact hn.symm

def newLegends (found : Pattern.Found) : List Char :=
  (twoLegends (found.group 0) (found.group 1)).toList

theorem toList_expandMarkers {text : String} (h : text.toList = c :: cs) : (expandMarkers text).toList =
      match markerPattern.matchFront (c :: cs) with
      | some found => newLegends found ++ markerPattern.replaceFrom newLegends cs.length (found.length - 1) cs
      | none => c :: markerPattern.replaceFrom newLegends (cs.length + 1) 0 cs := by
  have hc : text.length = cs.length + 1 := by rw [← String.length_toList, h, length_cons]
  rw [expandMarkers, Pattern.replaceAll, String.toList_ofList, h, hc, Pattern.replaceFrom]
  rfl

theorem replaceFrom_skip {new : Pattern.Found → List Char} {limit skip : Nat}
    (h : cs.length ≤ skip) : markerPattern.replaceFrom new limit skip cs = [] := by
  induction cs generalizing skip with
  | nil => simp [Pattern.replaceFrom]
  | cons c cs ih =>
    obtain ⟨skip, rfl⟩ := Nat.exists_eq_succ_of_ne_zero (Nat.ne_of_gt (Nat.lt_of_lt_of_le (Nat.succ_pos _) h))
    rw [Pattern.replaceFrom]
    exact ih (by simpa using h)

/-- The text is a mapping of `t` and `s` to two double-quoted scalars that stand for the legends. -/
def ShowsLegends (text tap shifted : String) : Prop :=
  ∃ rawTap rawShifted, text = twoLegends rawTap rawShifted ∧
    Yaml.unquoted rawTap.toList = some tap.toList ∧ Yaml.unquoted rawShifted.toList = some shifted.toList

theorem toList_twoLegends (tap shifted : String) : (twoLegends tap shifted).toList =
    "\x7bt: \"".toList ++ (tap.toList ++ '"' :: (", s: \"".toList ++ (shifted.toList ++ '"' :: ['}']))) := by
  simp [twoLegends]

section Runs

variable {p : Char → Bool} {xs ys : List Char}

theorem takeWhile_before (h : ∀ c ∈ ys.head?, p c = false) : (xs ++ ys).takeWhile p = xs.takeWhile p := by
  rw [takeWhile_append, (Text.takeWhile_stops h).1, append_nil]
  split
  · rename_i hw
    have whole : xs.takeWhile p <+: xs := takeWhile_prefix p
    exact (whole.eq_of_length hw).symm
  · rfl

theorem dropWhile_all (h : ∀ c ∈ xs, p c) (hs : ∀ c ∈ ys.head?, p c = false) : (xs ++ ys).dropWhile p = ys := by
  rw [dropWhile_append_of_pos h, (Text.takeWhile_stops hs).2]

end Runs

section Body

variable {tap shifted : List Char}

theorem stops_shifted (h : IsEnclosing q) : ∀ c ∈ q.head?, inShifted c = false := by
  rcases h with rfl | ⟨c, rfl, h⟩
  · simp
  · simp [inShifted, h]

theorem legends_of_found (hm : IsEnclosing q) {first second rest : List Char}
    (h : legends? (tap ++ '|' :: (shifted ++ q)) = some (first, second, rest)) :
    first = tap.takeWhile inTap ∧ first ≠ [] ∧
      (first = tap → second = shifted.takeWhile inShifted ∧ second ≠ []) := by
  have hs : ∀ c ∈ ('|' :: (shifted ++ q)).head?, inTap c = false := by
    simp [inTap]
  unfold legends? at h
  rw [takeWhile_before hs] at h
  split at h
  · cases h
  · rename_i hp
    split at h
    · cases h
    · rename_i c later hl
      split at h
      · rename_i hmr
        simp only [Option.some.injEq, Prod.mk.injEq] at h
        obtain ⟨rfl, rfl, -⟩ := h
        refine ⟨rfl, hp, fun hw => ?_⟩
        rw [dropWhile_all (takeWhile_eq_self_iff.mp hw) hs] at hl
        obtain ⟨-, rfl⟩ := cons.inj hl
        exact ⟨takeWhile_before (stops_shifted hm), hmr.2⟩
      · cases h

theorem found_of_readable (h : IsEnclosing q) (tapPresent : tap ≠ []) (ht : ∀ c ∈ tap, inTap c) (hp : shifted ≠ [])
    (run : ∀ c ∈ shifted, inShifted c) : legends? (tap ++ '|' :: (shifted ++ q)) = some (tap, shifted, []) := by
  have hs : ∀ c ∈ ('|' :: (shifted ++ q)).head?, inTap c = false := by
    simp [inTap]
  have hm : Pattern.dropMark isQuoteMark q = [] := by
    rcases h with rfl | ⟨c, rfl, h⟩
    · rfl
    · simp [Pattern.dropMark, h]
  have hl := stops_shifted h
  rw [legends?, takeWhile_before hs, dropWhile_all ht hs, takeWhile_eq_self_iff.mpr ht, if_neg tapPresent]
  simp only [takeWhile_before hl, dropWhile_all run hl, takeWhile_eq_self_iff.mpr run]
  rw [if_pos ⟨trivial, hp⟩, hm]

end Body

/-- Legends that a marker keeps apart and that need no escapes. -/
def KeepsTap (tap : String) : Prop :=
  tap ≠ "" ∧ ∀ c ∈ tap.toList, c ∉ ['|', '\'', '"', '\\'] ∧ (c = '\t' ∨ ' ' ≤ c)

def KeepsShifted (shifted : String) : Prop :=
  shifted ≠ "" ∧ ∀ c ∈ shifted.toList, c ∉ ['\'', '"', '\\'] ∧ Text.isBlank c = false ∧ ' ' ≤ c

theorem inTap_iff : inTap c ∧ Yaml.IsPlain c ↔ c ∉ ['|', '\'', '"', '\\'] ∧ (c = '\t' ∨ ' ' ≤ c) := by
  simp only [inTap, isQuoteMark, Yaml.IsPlain, Bool.not_eq_true', Bool.or_eq_false_iff, beq_eq_false_iff_ne, mem_cons,
    not_mem_nil, or_false, not_or]
  tauto

theorem inShifted_iff : inShifted c ∧ Yaml.IsPlain c ↔
    c ∉ ['\'', '"', '\\'] ∧ Text.isBlank c = false ∧ ' ' ≤ c := by
  have tab : c = '\t' → Text.isBlank c := by
    rintro rfl
    decide
  simp only [inShifted, isQuoteMark, Yaml.IsPlain, Bool.not_eq_true', Bool.or_eq_false_iff, beq_eq_false_iff_ne,
    mem_cons, not_mem_nil, or_false, not_or]
  constructor
  · rintro ⟨⟨hm, h⟩, own, hp⟩
    have hn : c ≠ '\t' := fun ht => by simp [tab ht] at h
    exact ⟨⟨hm.1, own⟩, h, hp.resolve_left hn⟩
  · rintro ⟨⟨hs, own⟩, h, hp⟩
    exact ⟨⟨⟨hs, own.1⟩, h⟩, own, .inr hp⟩

theorem not_mem_takeWhile {p : Char → Bool} (outside : p c = false) (cs : List Char) : c ∉ cs.takeWhile p := by
  intro h
  exact absurd (mem_takeWhile_imp h) (by simp [outside])

/-- Two legends in front of a text that shows legends which begin with them are those legends. -/
theorem legends_eq {first second more tap shifted : List Char} {rawTap rawShifted : String}
    (hs : (twoLegends (String.ofList first) (String.ofList second)).toList ++ more =
      (twoLegends rawTap rawShifted).toList)
    (isTap : Yaml.unquoted rawTap.toList = some tap) (isShifted : Yaml.unquoted rawShifted.toList = some shifted)
    (own : '"' ∉ first) (h : first <+: tap) (ho : first = tap → '"' ∉ second ∧ second <+: shifted) :
    (tap = first ∧ ∀ c ∈ first, Yaml.IsPlain c) ∧ shifted = second ∧ ∀ c ∈ second, Yaml.IsPlain c := by
  simp only [toList_twoLegends, String.toList_ofList, append_assoc, cons_append, append_cancel_left_eq] at hs
  obtain ⟨ht, hr⟩ := Yaml.closed_at_quote own h hs isTap
  obtain ⟨own, h⟩ := ho ht.1.symm
  exact ⟨ht, (Yaml.closed_at_quote own h (append_cancel_left hr) isShifted).1⟩

theorem showsLegends_iff (hm : IsEnclosing q) {text tap shifted : String}
    (isText : text.toList = q ++ ("SM_MARKER:".toList ++ (tap.toList ++ '|' :: (shifted.toList ++ q)))) :
    ShowsLegends (expandMarkers text) tap shifted ↔ KeepsTap tap ∧ KeepsShifted shifted := by
  obtain ⟨c, cs, hc, hst⟩ : ∃ c cs, text.toList = c :: cs ∧ c ≠ '{' := by
    rcases hm with rfl | ⟨c, rfl, hm⟩
    · exact ⟨'S', _, isText, by decide⟩
    · refine ⟨c, _, isText, ?_⟩
      rintro rfl
      exact absurd hm (by decide)
  have he := toList_expandMarkers hc
  rw [← hc, isText, matchFront_marker hm] at he
  constructor
  · rintro ⟨rawTap, rawShifted, htw, ht, hs⟩
    rw [htw] at he
    cases hf : legends? (tap.toList ++ '|' :: (shifted.toList ++ q)) with
    | none =>
      rw [hf] at he
      rw [toList_twoLegends] at he
      exact absurd (cons.inj he).1.symm hst
    | some parts =>
      obtain ⟨first, second, rest⟩ := parts
      obtain ⟨hfr, hfp, ho⟩ := legends_of_found hm hf
      rw [hf] at he
      have hq : inTap '"' = false ∧ inShifted '"' = false := by decide
      obtain ⟨⟨ht, htp⟩, hs, hp⟩ := legends_eq he.symm ht hs
        (hfr ▸ not_mem_takeWhile hq.1 _) (hfr ▸ takeWhile_prefix _)
        fun hw => ⟨(ho hw).1 ▸ not_mem_takeWhile hq.2 _, (ho hw).1 ▸ takeWhile_prefix _⟩
      obtain ⟨hsc, hsp⟩ := ho ht.symm
      have htn : ∀ c ∈ tap.toList, inTap c := takeWhile_eq_self_iff.mp (hfr.symm.trans ht.symm)
      have run : ∀ c ∈ shifted.toList, inShifted c := takeWhile_eq_self_iff.mp (hsc.symm.trans hs.symm)
      rw [← ht] at hfp htp
      rw [← hs] at hsp hp
      exact ⟨⟨by simpa using hfp, fun c h => inTap_iff.mp ⟨htn c h, htp c h⟩⟩,
        by simpa using hsp, fun c h => inShifted_iff.mp ⟨run c h, hp c h⟩⟩
  · rintro ⟨⟨htr, htk⟩, hpr, kept⟩
    have hf := found_of_readable hm (by simpa using htr) (fun c h => (inTap_iff.mpr (htk c h)).1)
      (by simpa using hpr) fun c h => (inShifted_iff.mpr (kept c h)).1
    rw [hf] at he
    refine ⟨tap, shifted, ?_, ?_, ?_⟩
    · have hcn : (q ++ ("SM_MARKER:".toList ++ (tap.toList ++ '|' :: (shifted.toList ++ q)))).length =
          cs.length + 1 := by
        rw [← isText, hc, length_cons]
      simp only [Option.map_some, hcn] at he
      rw [replaceFrom_skip (by simp), append_nil] at he
      simpa [newLegends, Pattern.Found.group] using String.toList_injective he
    · exact Yaml.unquoted_plain fun c h => (inTap_iff.mpr (htk c h)).2
    · exact Yaml.unquoted_plain fun c h => (inShifted_iff.mpr (kept c h)).2

section ShiftMorph

variable {base shifted : String}

theorem arguments?_other (kind : String) {code : String} {c d : Char} {cs ds : List Char}
    (h : code.toList = c :: cs) (hk : kind.toList = d :: ds) (ho : d ≠ c) : arguments? kind code = none := by
  have outside : Text.startsWith code (kind ++ ":") = false := by
    simp [Text.startsWith, String.toList_append, h, hk, isPrefixOf, ho]
  rw [arguments?, outside]
  rfl

theorem dualCode?_shiftMorph (keycodes : Entries) (single : ':' ∉ base.toList) (single' : ':' ∉ shifted.toList) :
    dualCode? keycodes (Vocabulary.held "sm" base shifted) =
      some ("SM_MARKER:" ++ (keyLegend keycodes base).toText ++ "|" ++ (keyLegend keycodes shifted).toText) := by
  have h : (Vocabulary.held "sm" base shifted).toList = 's' :: 'm' :: ':' :: (base.toList ++ ':' :: shifted.toList) :=
    Vocabulary.toList_held
  have hs : arguments? "sm" (Vocabulary.held "sm" base shifted) = some [base, shifted] := by
    have hp : Text.split ':' (Vocabulary.held "sm" base shifted) = ["sm", base, shifted] :=
      Vocabulary.parts_held_key (by decide) single single'
    have hst : Text.startsWith (Vocabulary.held "sm" base shifted) ("sm" ++ ":") := by
      rw [Text.startsWith, h]
      rfl
    rw [arguments?, if_pos hst, hp]
    rfl
  simp only [dualCode?, hs, arguments?_other "hrm" h rfl (by decide),
    arguments?_other "mt" h rfl (by decide), arguments?_other "lt" h rfl (by decide),
    arguments?_other "df" h rfl (by decide), arguments?_other "osl" h rfl (by decide), Option.none_or]

theorem drawnCode_shiftMorph (keycodes : Entries) (hs : ':' ∉ base.toList) (single' : ':' ∉ shifted.toList) :
    drawnCode keycodes (Vocabulary.held "sm" base shifted) =
      .text ("SM_MARKER:" ++ (keyLegend keycodes base).toText ++ "|" ++ (keyLegend keycodes shifted).toText) := by
  have hu : unusedKeys.contains (Vocabulary.held "sm" base shifted) = false := by
    rw [Bool.eq_false_iff, ne_eq, contains_iff_mem]
    intro h
    have hp : ∀ key ∈ unusedKeys, Vocabulary.isComposite key = false := by decide
    exact absurd (hp _ h) (by simp [Vocabulary.isComposite_held])
  rw [drawnCode, hu, dualCode?_shiftMorph keycodes hs single']
  rfl

end ShiftMorph

/-- The marker of a shift-morph key becomes a mapping of the two legends of its keys exactly if these legends have
no quotation marks, backslashes or control characters, the first one has no bar and the second one no blank. -/
theorem shift_morph_legends_kept_iff (keycodes : Entries) (base shifted tap shown : String)
    (single : ':' ∉ base.toList) (single' : ':' ∉ shifted.toList) (isTap : keyLegend keycodes base = .text tap)
    (isShown : keyLegend keycodes shifted = .text shown) :
    ∃ marker, drawnCode keycodes ("sm:" ++ base ++ ":" ++ shifted) = .text marker ∧
      ∀ q ∈ ["", "'", "\""], ShowsLegends (expandMarkers (q ++ marker ++ q)) tap shown ↔
        KeepsTap tap ∧ KeepsShifted shown := by
  have isMarker := drawnCode_shiftMorph keycodes single single'
  rw [isTap, isShown] at isMarker
  refine ⟨_, isMarker, fun q among => ?_⟩
  have mark : IsEnclosing q.toList := by
    simp only [mem_cons, not_mem_nil, or_false] at among
    rcases among with rfl | rfl | rfl
    · exact .inl rfl
    · exact .inr ⟨'\'', rfl, rfl⟩
    · exact .inr ⟨'"', rfl, rfl⟩
  exact showsLegends_iff mark (by simp [Document.toText])

/-- A backslash is kept, but in the mapping it escapes the quotation mark behind it. -/
theorem backslash_legend_lost : ∃ marker, drawnCode Standard.keycodes "sm:BSLS:PIPE" = .text marker ∧
      ∀ q ∈ ["", "'", "\""], ¬ ShowsLegends (expandMarkers (q ++ marker ++ q)) "\\" "|" := by
  obtain ⟨marker, isMarker, kept⟩ := shift_morph_legends_kept_iff Standard.keycodes "BSLS" "PIPE" "\\" "|" (by decide)
    (by decide) rfl rfl
  refine ⟨marker, isMarker, fun q among shows => ?_⟩
  obtain ⟨⟨-, tapKept⟩, -⟩ := (kept q among).mp shows
  exact absurd (tapKept '\\' (by decide)).1 (by decide)

end Drawing

end Keymap
