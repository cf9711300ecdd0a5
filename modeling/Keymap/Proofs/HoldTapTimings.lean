import Keymap.Proofs.ZmkKeymap

namespace Keymap.Zmk

open List

variable {t : Timing} {a b : String}

def timingNames : List String :=
  ["tapping-term-ms", "quick-tap-ms", "flavor", "require-prior-idle-ms"]

def timing? (line : String) : Option String :=
  let statement := Text.trimStart line
  if timingNames.any fun name => Text.startsWith statement (name ++ " =") then some statement else none

def timings (node : List String) : List String :=
  node.filterMap timing?

def timingStatements (t : Timing) : List String :=
  (timingProperties t).map fun p => p.2.statement p.1

def isStated (start : String) : Bool :=
  timingNames.any fun name => Text.startsWith (Text.trimStart start) (name ++ " =")

def isOther (start : String) : Bool :=
  match start.toList.dropWhile Text.isBlank with
  | [] => false
  | c :: _ => !(['t', 'q', 'f', 'r'].contains c)

theorem timing?_stated {s : String} (stated : isStated a) (hs : Text.trimStart a = s) (x y : String) :
    timing? (a ++ x ++ y) = some (s ++ x ++ y) := by
  obtain ⟨name, hm, h⟩ := any_eq_true.mp stated
  have hsl : (a.toList.dropWhile Text.isBlank).isEmpty = false := by
    cases he : a.toList.dropWhile Text.isBlank with
    | nil => simp [Text.startsWith, Text.trimStart, Text.trimStartChars, he] at h
    | cons => rfl
  have ht : Text.trimStart (a ++ x ++ y) = s ++ x ++ y := by
    rw [← hs]
    simp [Text.trimStart, Text.trimStartChars, dropWhile_append, hsl, String.append_assoc]
  rw [timing?, ht]
  refine if_pos (any_eq_true.mpr ⟨name, hm, ?_⟩)
  rw [Text.startsWith, isPrefixOf_iff_prefix] at h ⊢
  rw [hs] at h
  simpa only [String.toList_append, append_assoc] using h.trans (prefix_append _ (x.toList ++ y.toList))

theorem timing?_other (h : isOther a) : timing? a = none := by
  unfold isOther at h
  split at h
  · cases h
  · rename_i c cs hst
    have hb : (Text.trimStart a).toList = c :: cs := by
      simp [Text.trimStart, Text.trimStartChars, hst]
    have hfr : ∀ name ∈ timingNames, (name ++ " =").toList.head?.all (['t', 'q', 'f', 'r'].contains ·) := by decide
    refine if_neg (Bool.eq_false_iff.mp (any_eq_false.mpr fun name hm => ?_))
    rw [Text.startsWith, isPrefixOf_iff_prefix, hb]
    intro hs
    obtain ⟨x, rest, hn⟩ := exists_cons_of_ne_nil (show (name ++ " =").toList ≠ [] by simp)
    rw [hn, cons_prefix_cons] at hs
    have hf := hfr name hm
    rw [hn, head?_cons, Option.all_some, hs.1] at hf
    rw [hf] at h
    cases h

theorem isOther_append (h : isOther a) (b : String) : isOther (a ++ b) := by
  unfold isOther at h ⊢
  split at h
  · cases h
  · rename_i c cs hs
    simpa [dropWhile_append, hs] using h

theorem isOther_pieces (h : isOther a) (pieces : List String) : isOther (pieces.foldl (· ++ ·) a) := by
  induction pieces generalizing a with
  | nil => exact h
  | cons piece rest ih => exact ih (isOther_append h piece)

theorem dropWhile_blank (h : a.toList.all Text.isBlank) (b : String) :
    (a ++ b).toList.dropWhile Text.isBlank = b.toList.dropWhile Text.isBlank := by
  rw [String.toList_append, dropWhile_append_of_pos (all_eq_true.mp h)]

theorem timing?_blank (h : a.toList.all Text.isBlank) (b : String) : timing? (a ++ b) = timing? b := by
  rw [timing?, Text.trimStart, Text.trimStartChars, dropWhile_blank h]
  rfl

theorem timing?_statement (name : String) (h : name ∈ timingNames) (v : Document) :
    timing? (Property.statement name (.number v)) = some (Property.statement name (.number v)) ∧
      timing? (Property.statement name (.text v)) = some (Property.statement name (.text v)) := by
  have hst : ∀ name ∈ timingNames, (isStated (name ++ " = <") ∧ Text.trimStart (name ++ " = <") = name ++ " = <") ∧
      isStated (name ++ " = \"") ∧ Text.trimStart (name ++ " = \"") = name ++ " = \"" := by decide
  obtain ⟨⟨hn, hs⟩, ht, hsm⟩ := hst name h
  exact ⟨timing?_stated hn hs _ _, timing?_stated ht hsm _ _⟩

theorem timings_timingProperties (t : Timing) :
    timings (propertyLines (timingProperties t) ownProperties) = timingStatements t := by
  have hk : (timingProperties t).filter (fun p => !ownProperties.contains p.1) = timingProperties t := by
    rw [timingProperties]
    split <;> simp [ownProperties]
  have he : ∀ p ∈ timingProperties t, timing? (Text.spaces 12 ++ p.2.statement p.1) = some (p.2.statement p.1) := by
    intro p h
    rw [timing?_blank (by decide)]
    simp only [timingProperties, mem_append, mem_cons, not_mem_nil, or_false, mem_ite_nil_left, Bool.not_eq_true] at h
    rcases h with (rfl | rfl | rfl) | ⟨-, rfl⟩
    · exact (timing?_statement "tapping-term-ms" (by decide) _).1
    · exact (timing?_statement "quick-tap-ms" (by decide) _).1
    · exact (timing?_statement "flavor" (by decide) _).2
    · exact (timing?_statement "require-prior-idle-ms" (by decide) _).1
  rw [propertyLines, hk, timings, filterMap_map, timingStatements, ← filterMap_eq_map]
  refine filterMap_congr fun p h => ?_
  rw [Function.comp_apply, Function.comp_apply]
  exact he p h

theorem timings_timingOverride (name : String) (t : Timing) :
    timings (timingOverride name t) = (timingStatements t).take 3 := by
  have ho : timing? (s!"&{name} \x7b") = none := timing?_other (isOther_pieces (by decide) [_, _])
  have ht : timing? s!"    tapping-term-ms = <{t.tappingTerm.toText}>;" = _ :=
    timing?_stated (s := "tapping-term-ms" ++ " = <") (by decide) (by decide) _ _
  have hq : timing? s!"    quick-tap-ms = <{t.quickTap.toText}>;" = _ :=
    timing?_stated (s := "quick-tap-ms" ++ " = <") (by decide) (by decide) _ _
  have hf : timing? s!"    flavor = \"{t.flavor.toText}\";" = _ :=
    timing?_stated (s := "flavor" ++ " = \"") (by decide) (by decide) _ _
  have h : timing? "\x7d;" = none := by decide
  simp only [timings, timingOverride, filterMap_cons, ho, ht, hq, hf, h, filterMap_nil]
  rfl

theorem timings_holdTap {h : HoldTap} (hn : isOther h.name) :
    timings h.lines = timings (propertyLines h.properties ownProperties) := by
  have ho : timing? s!"        {h.name}: {h.name} \x7b" = none := by
    change timing? ("        " ++ h.name ++ ": " ++ h.name ++ " \x7b") = none
    simp only [String.append_assoc]
    rw [timing?_blank (by decide)]
    exact timing?_other (isOther_append hn _)
  have hl : timing? s!"            label = \"{h.label}\";" = none :=
    timing?_other (isOther_pieces (by decide) [_, _])
  have hb : timing? s!"            bindings = <{h.hold}>, <{h.tap}>;" = none :=
    timing?_other (isOther_pieces (by decide) [_, _, _, _])
  have hp : ∀ line ∈ ["            compatible = \"zmk,behavior-hold-tap\";", "            #binding-cells = <2>;",
    "        \x7d;", ""], timing? line = none := by decide
  simp only [forall_mem_cons] at hp
  simp only [timings, HoldTap.lines, filterMap_append, filterMap_cons, ho, hl, hb, hp, filterMap_nil,
    nil_append, append_nil]

theorem timings_homeRowProperties (size : LayoutSize) (hand : Hand) :
    timings (propertyLines (homeRowProperties t size hand) ownProperties) = timingStatements t := by
  have h : homeRowProperties t size hand = timingProperties t ++ [("hold-trigger-key-positions",
      .cells (positionsText (holdPositions size hand))), ("hold-trigger-on-release", .flag)] := by
    rw [homeRowProperties, timingProperties]
    split <;> simp [assign]
  have ho : timings (propertyLines [("hold-trigger-key-positions", .cells (positionsText (holdPositions size hand))),
      ("hold-trigger-on-release", .flag)] ownProperties) = [] := by
    have hps : timing? (Text.spaces 12 ++ ("hold-trigger-key-positions" ++ " = <" ++
        positionsText (holdPositions size hand) ++ ">;")) = none :=
      (timing?_blank (by decide) _).trans (timing?_other (isOther_pieces (by decide) [_, _]))
    have hr : timing? (Text.spaces 12 ++ Property.flag.statement "hold-trigger-on-release") = none := by decide
    exact filterMap_eq_nil_iff.mpr (forall_mem_cons.mpr ⟨hps, forall_mem_singleton.mpr hr⟩)
  have hp (a b : Properties) : timings (propertyLines (a ++ b) ownProperties) =
      timings (propertyLines a ownProperties) ++ timings (propertyLines b ownProperties) := by
    simp only [timings, propertyLines, filter_append, map_append, filterMap_append]
  rw [h, hp, ho, timings_timingProperties, append_nil]

theorem timings_homeRowTiming (t : Timing) : (timings (homeRowTiming t)).Perm (timingStatements t) := by
  have h : timing? s!"            flavor = \"{t.flavor.toText}\";" = _ :=
    timing?_stated (s := "flavor" ++ " = \"") (by decide) (by decide) _ _
  have hi : timing? s!"            require-prior-idle-ms = <{t.priorIdle.toText}>;" = _ :=
    timing?_stated (s := "require-prior-idle-ms" ++ " = <") (by decide) (by decide) _ _
  have ht : timing? s!"            tapping-term-ms = <{t.tappingTerm.toText}>;" = _ :=
    timing?_stated (s := "tapping-term-ms" ++ " = <") (by decide) (by decide) _ _
  have hq : timing? s!"            quick-tap-ms = <{t.quickTap.toText}>;" = _ :=
    timing?_stated (s := "quick-tap-ms" ++ " = <") (by decide) (by decide) _ _
  rw [timings, homeRowTiming, filterMap_append]
  simp only [filterMap_cons, ht, hq, filterMap_nil]
  refine perm_append_comm.trans (.of_eq ?_)
  rw [timingStatements, timingProperties]
  split <;> simp only [filterMap_append, filterMap_cons, h, hi, filterMap_nil] <;> rfl

theorem timings_homeRowNode (hand : Hand) (node label note : String) (positions : List Nat) :
    timings (homeRowNode t (handLabel hand) node label note positions) = timings (homeRowTiming t) := by
  have ho : timing? s!"        {handLabel hand}: {node} \x7b" = none := by
    cases hand <;> exact timing?_other (isOther_pieces (by decide) [_, _, _])
  have label : timing? s!"            label = \"{label}\";" = none :=
    timing?_other (isOther_pieces (by decide) [_, _])
  have positions : timing? s!"            hold-trigger-key-positions = <{positionsText positions}>;  // {note}" = none :=
    timing?_other (isOther_pieces (by decide) [_, _, _])
  have h : ∀ line ∈ ["            compatible = \"zmk,behavior-hold-tap\";", "            #binding-cells = <2>;",
    "            bindings = <&kp>, <&kp>;", "            hold-trigger-on-release;", "        \x7d;"],
    timing? line = none := by decide
  simp only [forall_mem_cons] at h
  simp only [timings, homeRowNode, filterMap_append, filterMap_cons, ho, label, positions, h, filterMap_nil,
    nil_append, append_nil]

def sectionTable (settings : Settings) (size : LayoutSize) (file : Option String) : BehaviorTable :=
  withHomeRow settings.behaviors size (Progress.start settings file).table

theorem lookup_sectionTable (settings : Settings) (size : LayoutSize) (file : Option String) :
    (sectionTable settings size file).lookup "lt" = some (timingProperties settings.behaviors.layerTap) ∧
    (sectionTable settings size file).lookup "mt" = some (timingProperties settings.behaviors.modTap) ∧
    ∀ hand, (sectionTable settings size file).lookup (handLabel hand) =
      some (homeRowProperties settings.behaviors.homeRowMods size hand) := by
  simp only [sectionTable, withHomeRow, Progress.start, seedBehaviors, lookup_assign]
  exact ⟨rfl, rfl, fun hand => by cases hand <;> rfl⟩

theorem perm_override_iff (name : String) (t : Timing) :
    (timingStatements t).Perm (timings (timingOverride name t)) ↔ t.priorIdle.isNull := by
  rw [timings_timingOverride, timingStatements, timingProperties]
  constructor
  · intro h
    by_contra hs
    rw [if_neg hs] at h
    exact absurd h.length_eq (by simp)
  · intro hn
    rw [if_pos hn]
    rfl

/-- The sections of a keymap file, with all wrappers, are made with that table by a new generator. The
overrides stand in the head of the file. -/
theorem keymapFile_sectionTable {settings : Settings} {s : Source} {file : Option String} {text : String}
    (done : ((keymapFile settings s).run.run (.start settings file)).1 = .ok text) :
    ∃ parts : FileParts settings s (.start settings file), text = parts.text ∧
      behaviorSections settings (sectionTable settings s.board.layoutSize file) (magicRefs (s.magic.getD [])) s =
        .ok (parts.sections.all, parts.sections.replacements) := by
  obtain ⟨parts, isText⟩ := keymapFile_parts done
  exact ⟨parts, isText.symm, parts.isSections⟩

/-- Wrappers have the timings of the home-row mods that they wrap. Those around layer-tap and mod-tap have the
timings of the overrides exactly if no idle time is required before them. -/
theorem hold_tap_timings_alike_iff (settings : Settings) (size : LayoutSize) (file : Option String) :
    (∀ family, (timings (magicWrapper (sectionTable settings size file) "lt" "&mo" family).lines).Perm
        (timings (timingOverride "lt" settings.behaviors.layerTap)) ↔
      settings.behaviors.layerTap.priorIdle.isNull = true) ∧
    (∀ family, (timings (magicWrapper (sectionTable settings size file) "mt" "&kp" family).lines).Perm
        (timings (timingOverride "mt" settings.behaviors.modTap)) ↔
      settings.behaviors.modTap.priorIdle.isNull = true) ∧ ∀ kind trained key node label note positions,
      (timings (wrapHomeRow (sectionTable settings size file) kind trained key).node.lines).Perm
        (timings (homeRowNode settings.behaviors.homeRowMods (handLabel key.hand) node label note positions)) := by
  obtain ⟨layerTap, modTap, hands⟩ := lookup_sectionTable settings size file
  refine ⟨fun family => ?_, fun family => ?_, fun kind trained key node label note positions => ?_⟩
  · have named : isOther (magicWrapper (sectionTable settings size file) "lt" "&mo" family).name = true :=
      isOther_pieces (by decide) [_, _]
    rw [timings_holdTap named, magicWrapper, layerTap, Option.getD_some, timings_timingProperties, perm_override_iff]
  · have named : isOther (magicWrapper (sectionTable settings size file) "mt" "&kp" family).name = true :=
      isOther_pieces (by decide) [_, _]
    rw [timings_holdTap named, magicWrapper, modTap, Option.getD_some, timings_timingProperties, perm_override_iff]
  · have named : isOther (wrapHomeRow (sectionTable settings size file) kind trained key).node.name = true := by
      cases hand : key.hand <;> simp only [wrapHomeRow, hand] <;>
        exact isOther_pieces (by decide) [_, _, _, _, _, _]
    rw [timings_holdTap named, wrapHomeRow, hands, Option.getD_some, timings_homeRowProperties, timings_homeRowNode]
    exact (timings_homeRowTiming _).symm

end Keymap.Zmk
