import Keymap.Proofs.ZmkMacros
import Keymap.Zmk.Combos

namespace Keymap.Zmk

open Devicetree List

variable {known : String → Prop} {keycodes : Entries} {table : BehaviorTable} {label : String}
  {m : MagicMapping} {refs : MacroRefs} {t : Timing} {first second : String}
  {morphs : List (Document × Document)} {behaviors : Behaviors} {magic : MagicConfig} {combo : Combo}
  {size : LayoutSize}

structure TimingClosed (known : String → Prop) (t : Timing) : Prop where
  tappingTerm : Within known t.tappingTerm.toText
  quickTap : Within known t.quickTap.toText
  priorIdle : Within known t.priorIdle.toText
  flavor : Within known t.flavor.toText

theorem TimingClosed.mono {known' : String → Prop} (hw : ∀ name, known name → known' name)
    (h : TimingClosed known t) : TimingClosed known' t where
  tappingTerm := h.tappingTerm.mono hw
  quickTap := h.quickTap.mono hw
  priorIdle := h.priorIdle.mono hw
  flavor := h.flavor.mono hw

def TableClosed (known : String → Prop) (table : BehaviorTable) : Prop :=
  ∀ behavior ∈ ["lt", "mt", "hml", "hmr"],
    Properties.Closed known ((table.lookup behavior).getD [])

theorem TimingClosed.properties (hc : TimingClosed known t) : Properties.Closed known (timingProperties t) := by
  intro p h
  simp only [timingProperties, mem_append, mem_cons, not_mem_nil, or_false] at h
  rcases h with (rfl | rfl | rfl) | h
  · exact ⟨lacks_literal (by decide), hc.tappingTerm⟩
  · exact ⟨lacks_literal (by decide), hc.quickTap⟩
  · exact ⟨lacks_literal (by decide), hc.flavor⟩
  · split at h
    · cases h
    · obtain rfl := mem_singleton.mp h
      exact ⟨lacks_literal (by decide), hc.priorIdle⟩

theorem quiet_positionsText (positions : List Nat) : Quiet (positionsText positions) := by
  refine lacks_join (by decide) fun s h => ?_
  obtain ⟨n, -, rfl⟩ := mem_map.mp h
  exact lacks_of_isIdentifier (Text.isIdentifier_toString n)

theorem homeRowProperties_closed (hc : TimingClosed known t) (size : LayoutSize) (hand : Hand) :
    Properties.Closed known (homeRowProperties t size hand) := by
  intro p h
  rcases mem_assign h with rfl | h
  · exact ⟨lacks_literal (by decide), Lacks.within (by decide)⟩
  · rcases mem_assign h with rfl | h
    · exact ⟨lacks_literal (by decide), (quiet_positionsText _).within⟩
    · exact hc.properties p h

theorem withHomeRow_closed (h : TimingClosed known behaviors.homeRowMods)
    (hl : TimingClosed known behaviors.layerTap) (modTap : TimingClosed known behaviors.modTap)
    (size : LayoutSize) (file : BehaviorTable) :
    TableClosed known (withHomeRow behaviors size (seedBehaviors behaviors file)) := by
  intro behavior hm
  simp only [mem_cons, not_mem_nil, or_false] at hm
  rcases hm with rfl | rfl | rfl | rfl
  · simpa [withHomeRow, seedBehaviors, lookup_assign] using hl.properties
  · simpa [withHomeRow, seedBehaviors, lookup_assign] using modTap.properties
  · simpa [withHomeRow, lookup_assign] using homeRowProperties_closed h size .left
  · simpa [withHomeRow, lookup_assign] using homeRowProperties_closed h size .right

theorem homeRowNode_within (base : KnowsOthers known) (h : TimingClosed known t)
    {name node note : String} (hn : Text.IsIdentifier name) (isNode : Text.IsIdentifier node)
    (hq : Quiet label) (quiet' : Quiet note) (positions : List Nat) :
    AllWithin known (homeRowNode t name node label note positions) := by
  refine (AllWithin.append ?_ ?_).append ?_
  · refine .cons (within_opening hn isNode) (.literal (by decide) (.cons ?_ ?_))
    · exact hq.within.surround (by decide)
    · exact .literal (by decide) .nil
  · refine (AllWithin.append (.cons (h.flavor.surround (by decide)) .nil) ?_).append ?_
    · split
      · exact .nil
      · exact .cons (h.priorIdle.surround (by decide)) .nil
    · refine .cons ?_ (.cons ?_ .nil)
      · exact h.tappingTerm.surround (by decide)
      · exact h.quickTap.surround (by decide)
  · have hk : Plain "            bindings = <&kp>, <&kp>;" := plain_literal (by decide)
    refine .cons (hk.within base) (.cons ?_ (.literal (by decide) (.literal (by decide) .nil)))
    refine Lacks.within ?_
    simp only [lacks_append]
    exact ⟨⟨⟨lacks_literal (by decide), quiet_positionsText _⟩, lacks_literal (by decide)⟩, quiet'⟩

theorem homeRowSection_within (base : KnowsOthers known) (h : TimingClosed known behaviors.homeRowMods)
    (hs : Within known size.text) : Within known (homeRowSection behaviors size) := by
  refine within_unlines ((((AllWithin.append ?_ ?_).append ?_).append ?_).append ?_)
  · refine .literal (by decide) (.cons ?_ (.literal (by decide) .nil))
    exact hs.surround (by decide)
  · exact homeRowNode_within base h (by decide) (by decide) (lacks_literal (by decide))
      (lacks_literal (by decide)) _
  · exact .literal (by decide) .nil
  · exact homeRowNode_within base h (by decide) (by decide) (lacks_literal (by decide))
      (lacks_literal (by decide)) _
  · exact .literal (by decide) (.literal (by decide) .nil)

theorem mem_labels_homeRowSection (behaviors : Behaviors) (size : LayoutSize)
    (h : label = "hml" ∨ label = "hmr") : label ∈ labels (homeRowSection behaviors size) := by
  have node : ∀ t name node title note positions, Text.IsIdentifier name → name ≠ "" →
      Text.IsIdentifier node → Defines (homeRowNode t name node title note positions) name :=
    fun _ _ _ _ _ _ hn hp hnd =>
      ⟨_, mem_append_left _ (mem_append_left _ mem_cons_self),
        mem_labels_node _ hn hp hnd (by decide) (by decide)⟩
  refine mem_labels_unlines.mpr (.append_left ?_)
  rcases h with rfl | rfl
  · exact .append_left (.append_left (.append_right (node _ _ _ _ _ _ (by decide) (by decide) (by decide))))
  · exact .append_right (node _ _ _ _ _ _ (by decide) (by decide) (by decide))

def morphLabel (base shifted : String) : String :=
  "sm_" ++ Text.lower base ++ "_" ++ Text.lower shifted

theorem isIdentifier_morphLabel (h : Text.IsIdentifier first) (hs : Text.IsIdentifier second) :
    Text.IsIdentifier (morphLabel first second) := by
  simp only [morphLabel, Text.isIdentifier_append]
  exact ⟨⟨⟨by decide, h.lower⟩, by decide⟩, hs.lower⟩

theorem shiftMorphs_within (base : KnowsOthers known) (table : TidyTable known keycodes)
    (isNames : ∀ morph ∈ morphs, Text.IsIdentifier morph.1.toText ∧ Text.IsIdentifier morph.2.toText) :
    Yields (shiftMorphs keycodes morphs) (Within known) := by
  unfold shiftMorphs
  split
  · exact .ok (Lacks.within (by decide))
  · refine Yields.bind (q := fun nodes => ∀ lines ∈ nodes, AllWithin known lines) ?_ ?_
    · refine .mapM_all fun morph hm => ?_
      obtain ⟨h, hs⟩ := isNames morph hm
      refine (word_yields _ _).bind fun first hf => ?_
      refine (word_yields _ _).bind fun second hsc => ?_
      refine (namedKey_within base table (lacks_of_isIdentifier h)).bind fun plain hw => ?_
      refine (namedKey_within base table (lacks_of_isIdentifier hs)).bind fun shifted hwt => ?_
      rw [hf] at h
      rw [hsc] at hs
      have hn := isIdentifier_morphLabel h hs
      refine .ok (.cons (within_opening hn hn) ?_)
      refine .literal (by decide) (.literal (by decide) (.cons (within_bindings hw hwt) ?_))
      exact .literal (by decide) (.literal (by decide) (.literal (by decide) .nil))
    · intro nodes he
      refine .ok (within_unlines ((AllWithin.append ?_ ?_).append (.literal (by decide) .nil)))
      · exact .literal (by decide) (.literal (by decide) (.literal (by decide) .nil))
      · exact .flatten he

theorem mem_labels_shiftMorphs (h : (.text first, .text second) ∈ morphs)
    (isFirst : Text.IsIdentifier first) (hs : Text.IsIdentifier second) :
    Yields (shiftMorphs keycodes morphs) fun text => morphLabel first second ∈ labels text := by
  unfold shiftMorphs
  split
  · rename_i hnn
    rw [List.isEmpty_iff] at hnn
    rw [hnn] at h
    cases h
  · refine Yields.bind (q := fun nodes =>
      ∃ lines ∈ nodes, Defines lines (morphLabel first second)) ?_ ?_
    · refine .mapM_mem h ?_
      refine (word_yields _ _).bind fun first' hsm => (word_yields _ _).bind fun second' hsa => ?_
      cases hsm
      cases hsa
      refine Yields.trivial.bind fun _ _ => Yields.trivial.bind fun _ _ => .ok ?_
      have hn := isIdentifier_morphLabel isFirst hs
      have hp : morphLabel first second ≠ "" := by simp [morphLabel]
      exact ⟨_, mem_cons_self, mem_labels_node _ hn hp hn (by decide) (by decide)⟩
    · intro nodes hf
      exact .ok (mem_labels_unlines.mpr (.append_left (.append_right (.flatten hf))))

def magicLabels (layer : String) : List String :=
  ["ak_" ++ familyLabel layer, "lt" ++ "_ak_" ++ familyLabel layer, "mt" ++ "_ak_" ++ familyLabel layer]

structure MappingClosed (known : String → Prop) (m : MagicMapping) : Prop where
  title : Text.IsIdentifier m.title
  timeout : Within known m.timeout.toText
  labels : ∀ label ∈ magicLabels m.title, known label

def RefsKnown (known : String → Prop) (refs : MacroRefs) : Prop :=
  ∀ place name, refs.lookup place = some name → Text.IsIdentifier name ∧ known name

theorem familyOf_yields (m : MagicMapping) :
    Yields (familyOf m) fun family => family = familyLabel m.title := by
  refine .map ((word_yields m.baseLayer "lower").mono fun layer h => ?_)
  rw [MagicMapping.title, h]
  rfl

theorem macroRef?_within (refsKnown : RefsKnown known refs) {layer : Document} {previous : Field}
    {ref : String} (h : macroRef? refs layer previous = some ref) : Within known ref := by
  obtain ⟨name, hn, rfl⟩ := Option.map_eq_some_iff.mp h
  obtain ⟨base, -, hr⟩ := Option.bind_eq_some_iff.mp hn
  obtain ⟨hi, hk⟩ := refsKnown _ _ hr
  exact within_ampersand hi hk

theorem timeLimit_within {ms : Document} (hw : Within known ms.toText) :
    Yields (timeLimit ms) fun limit => ∀ s, limit = some s → Within known s := by
  refine Yields.trivial.bind fun above _ => .ok fun s h => ?_
  split at h
  · cases h
    exact hw
  · cases h

theorem isIdentifier_magicLabels {layer : String} (hn : Text.IsIdentifier layer)
    (h : label ∈ magicLabels layer) : Text.IsIdentifier label ∧ label ≠ "" := by
  have hf := isIdentifier_familyLabel hn
  simp only [magicLabels, mem_cons, not_mem_nil, or_false] at h
  rcases h with rfl | rfl | rfl
  all_goals exact ⟨Text.isIdentifier_append.mpr ⟨by decide, hf⟩, by simp⟩

theorem magicWrapper_closed (hc : TableClosed known table) (h : MappingClosed known m)
    {behavior hold : String} (hb : behavior ∈ ["lt", "mt"]) (hh : Within known hold) :
    (magicWrapper table behavior hold (familyLabel m.title)).Closed known := by
  have hf := isIdentifier_familyLabel h.title
  have hn : Text.IsIdentifier behavior := by
    revert behavior
    decide
  refine ⟨?_, ?_, ?_, hh, ?_⟩
  · change Text.IsIdentifier (behavior ++ "_ak_" ++ familyLabel m.title)
    simp only [Text.isIdentifier_append]
    exact ⟨⟨hn, by decide⟩, hf⟩
  · change Quiet (Text.upper behavior ++ "_AK_" ++ Text.upper (familyLabel m.title))
    simp only [lacks_append]
    exact ⟨⟨lacks_of_isIdentifier hn.upper, lacks_literal (by decide)⟩, lacks_of_isIdentifier hf.upper⟩
  · refine hc behavior ?_
    simp only [mem_cons] at hb ⊢
    tauto
  · have hl := (isIdentifier_magicLabels h.title mem_cons_self).1
    have hw := within_ampersand hl (h.labels _ mem_cons_self)
    rwa [← String.append_assoc] at hw

theorem magicKeyLines_defines (hn : Text.IsIdentifier m.title) (hm : label ∈ magicLabels m.title) :
    Yields (magicKeyLines keycodes table refs m) fun lines => Defines lines label := by
  obtain ⟨h, hp⟩ := isIdentifier_magicLabels hn hm
  refine (familyOf_yields m).bind fun family hf => ?_
  refine Yields.bind (q := fun key : AdaptiveKey => key.name = "ak_" ++ family) ?_ ?_
  · refine (familyOf_yields m).bind fun family' hfm => ?_
    refine Yields.trivial.bind fun _ _ => Yields.trivial.bind fun _ _ =>
      Yields.trivial.bind fun _ _ => .ok ?_
    rw [hf, hfm]
  · intro key hnm
    subst hf
    refine .ok ?_
    simp only [magicLabels, mem_cons, not_mem_nil, or_false] at hm
    rcases hm with rfl | rfl | rfl
    · rw [← hnm] at h hp ⊢
      exact .append_left (.append_left (.append_right (key.defines h hp _ _)))
    · exact .append_left (.append_right (HoldTap.defines h hp))
    · exact .append_right (HoldTap.defines h hp)

section Magic

variable (base : KnowsOthers known) (tidy : TidyTable known keycodes) (refsKnown : RefsKnown known refs)

include base tidy

theorem magicDefault_within (d : Document) :
    Yields (magicDefault keycodes d) fun d => Within known d.toText := by
  unfold magicDefault
  split
  · exact .ok (within_literal base (by decide))
  · exact .ok (within_literal base (by decide))
  · exact (simpleKey_tidy base tidy _).mono fun d tidy => tidy.within

include refsKnown

theorem alternateBinding_within (layer : Document) (previous : Field) (alternate : Document) :
    Yields (alternateBinding keycodes refs layer previous alternate) fun d => Within known d.toText := by
  unfold alternateBinding
  split
  · rename_i ref h
    exact .ok (macroRef?_within refsKnown h)
  · exact (simpleKey_tidy base tidy alternate).mono fun d tidy => tidy.within

theorem magicTrigger_closed (hc : MappingClosed known m) (previous : Field) (alternate : Document) :
    Yields (magicTrigger keycodes refs m previous alternate) (Trigger.Closed known) := by
  refine (simpleKey_tidy base tidy _).bind fun raw hr => ?_
  refine (alternateBinding_within base tidy refsKnown _ _ _).bind fun binding hwt => ?_
  refine (bareKey_within hr).bind fun bare h => ?_
  split
  · exact .error
  · rename_i key others hw
    refine (timeLimit_within hc.timeout).bind fun limit hl => .ok ?_
    refine ⟨?_, ?_, hwt, hl⟩
    · exact lacks_append.mpr ⟨lacks_of_isIdentifier (isIdentifier_labelOf _), by decide⟩
    · intro key' hm
      obtain rfl := mem_singleton.mp hm
      exact within_words h (hw ▸ mem_cons_self)

theorem magicKeyNode_closed (h : MappingClosed known m) :
    Yields (magicKeyNode keycodes refs m) fun key =>
      key.name = "ak_" ++ familyLabel m.title ∧ key.Closed known := by
  refine (familyOf_yields m).bind fun family hf => ?_
  refine (magicDefault_within base tidy _).bind fun binding hw => ?_
  refine Yields.trivial.bind fun entries _ => ?_
  refine Yields.bind (.mapM_all fun entry _ =>
    magicTrigger_closed base tidy refsKnown h entry.1 entry.2) fun triggers he => .ok ?_
  subst hf
  have hn := (isIdentifier_magicLabels h.title mem_cons_self).1
  exact ⟨rfl, hn, hw, he⟩

theorem magicKeyLines_within (hp : TableClosed known table) (h : MappingClosed known m) :
    Yields (magicKeyLines keycodes table refs m) (AllWithin known) := by
  refine (familyOf_yields m).bind fun family hf => ?_
  refine (magicKeyNode_closed base tidy refsKnown h).bind fun key hk => .ok ?_
  subst hf
  refine ((AllWithin.append ?_ ?_).append ?_).append ?_
  · exact .cons ((lacks_of_isIdentifier h.title).within.surround (by decide)) .nil
  · exact hk.2.lines (.literal (by decide) .nil) (by decide)
  · exact (magicWrapper_closed hp h (by decide) (within_literal base (by decide))).lines
  · exact (magicWrapper_closed hp h (by decide) (within_literal base (by decide))).lines

theorem magicSection_within (hp : TableClosed known table) (h : ∀ m ∈ magic, MappingClosed known m) :
    Yields (magicSection keycodes table refs magic) (Within known) := by
  unfold magicSection
  split
  · exact .ok (Lacks.within (by decide))
  · refine Yields.bind (.mapM_all fun m hm =>
      magicKeyLines_within base tidy refsKnown hp (h m hm)) fun nodes he => ?_
    refine .ok (within_unlines ((AllWithin.append ?_ ?_).append ?_))
    · exact .literal (by decide) (.literal (by decide) (.literal (by decide) .nil))
    · exact .flatten he
    · exact .literal (by decide) (.literal (by decide) .nil)

end Magic

theorem mem_labels_magicSection (h : m ∈ magic) (isName : Text.IsIdentifier m.title)
    (hm : label ∈ magicLabels m.title) :
    Yields (magicSection keycodes table refs magic) fun text => label ∈ labels text := by
  unfold magicSection
  split
  · rename_i hn
    rw [List.isEmpty_iff] at hn
    rw [hn] at h
    cases h
  · refine Yields.bind (.mapM_mem h (magicKeyLines_defines isName hm)) fun nodes hf => ?_
    exact .ok (mem_labels_unlines.mpr (.append_left (.append_right (.flatten hf))))

structure ComboClosed (known : String → Prop) (combo : Combo) : Prop where
  title : Text.IsIdentifier combo.title
  timeout : Within known combo.timeout.toText
  priorIdle : Within known combo.priorIdle.toText
  action : Within known combo.action.toText
  positions : Yields combo.positions.members fun ps => ∀ p ∈ ps, Within known p.toText
  label : combo.macroText.isNull = false → known (Text.lower combo.title)

theorem quiet_toDigits (n : Nat) : '&' ∉ Nat.toDigits 10 n := by
  intro h
  exact absurd (Nat.isDigit_of_mem_toDigits (by decide) (by decide) h) (by decide)

theorem quiet_digits {d : Decimal.Digits} (digits : '&' ∉ d.digits) : Quiet d.text := by
  have hp : ∀ {cs : List Char}, (∀ c ∈ cs, c ∈ d.digits ∨ c = '0') → Quiet (String.ofList cs) := by
    refine fun he => lacks_literal fun h => ?_
    rcases he _ h with hd | hz
    · exact digits hd
    · exact absurd hz (by decide)
  unfold Decimal.Digits.text
  extract_lets n e power fraction
  split
  · split
    · refine lacks_append.mpr ⟨by decide, hp fun c h => ?_⟩
      rcases mem_append.mp h with hz | hd
      · exact .inr (eq_of_mem_replicate hz)
      · exact .inl hd
    · split
      · refine lacks_append.mpr ⟨hp fun c h => ?_, by decide⟩
        rcases mem_append.mp h with hd | hz
        · exact .inl hd
        · exact .inr (eq_of_mem_replicate hz)
      · simp only [lacks_append]
        exact ⟨⟨hp fun c h => .inl (mem_of_mem_take h), by decide⟩, hp fun c h => .inl (mem_of_mem_drop h)⟩
  · have hpw : Quiet power := lacks_literal (quiet_toDigits _)
    have hf : Quiet fraction := by
      simp only [fraction]
      split
      · decide
      · exact lacks_append.mpr ⟨by decide, hp fun c h => .inl (mem_of_mem_drop h)⟩
    simp only [lacks_append]
    refine ⟨⟨⟨hp fun c h => .inl (mem_of_mem_take h), hf⟩, ?_⟩, ?_⟩
    · split <;> decide
    · split
      · exact lacks_append.mpr ⟨by decide, hpw⟩
      · exact hpw

theorem quiet_double (x : Decimal.Double) : Quiet x.text := by
  unfold Decimal.Double.text
  extract_lets sign rest
  have h : Quiet sign := by
    simp only [sign]
    split <;> decide
  split
  · decide
  · split
    · exact lacks_append.mpr ⟨h, by decide⟩
    · split
      · exact lacks_append.mpr ⟨h, by decide⟩
      · refine lacks_append.mpr ⟨h, quiet_digits fun hm => ?_⟩
        simp only [Decimal.Binary.shortest, mem_reverse] at hm
        exact quiet_toDigits _ (mem_reverse.mp ((dropWhile_suffix _).subset hm))

theorem quiet_number (n : Document.Number) : Quiet n.toDocument.toText := by
  cases n with
  | whole n =>
    change Quiet (toString n)
    cases n with
    | ofNat n => exact lacks_of_isIdentifier (Text.isIdentifier_toString n)
    | negSucc n =>
      change Quiet ("-" ++ Nat.repr (n + 1))
      exact lacks_append.mpr ⟨by decide, lacks_of_isIdentifier (Text.isIdentifier_toString _)⟩
  | decimal x => exact quiet_double x

theorem boardPositions_within {positions : Document}
    (hw : Yields positions.members fun ps => ∀ p ∈ ps, Within known p.toText) :
    Yields (boardPositions size positions) fun d =>
      Yields d.members fun ps => ∀ p ∈ ps, Within known p.toText := by
  unfold boardPositions
  split
  · refine Yields.trivial.bind fun ps _ => ?_
    refine Yields.bind (q := fun ps => ∀ p ∈ ps, Within known (Document.toText p)) ?_ fun ps h => .ok (.ok h)
    refine .mapM_all fun p _ => Yields.trivial.bind fun n _ => .ok ?_
    exact (quiet_number _).within
  · refine hw.bind fun ps h => ?_
    refine Yields.bind (q := fun ps => ∀ p ∈ ps, Within known (Document.toText p)) ?_ fun ps h => .ok (.ok h)
    refine .mapM_all fun p hm => Yields.trivial.bind fun n _ => .ok ?_
    split
    · exact h p hm
    · exact (quiet_number _).within
  · exact .ok hw

structure ComboNode.Closed (known : String → Prop) (n : ComboNode) : Prop where
  name : Text.IsIdentifier n.name
  timeout : Within known n.timeout
  positions : ∀ p ∈ n.positions, Within known p
  binding : Within known n.binding
  priorIdle : ∀ ms, n.priorIdle = some ms → Within known ms

theorem ComboNode.Closed.lines {n : ComboNode} (h : n.Closed known) : AllWithin known n.lines := by
  have row := within_join " " (lacks_literal (by decide)) rfl (by decide) h.positions
  refine ((((AllWithin.append ?_ ?_).append ?_).append ?_).append (.literal (by decide) .nil))
  · refine .cons ?_ (.cons ?_ (.cons ?_ (.cons ?_ .nil)))
    · exact (lacks_of_isIdentifier h.name).within.surround (by decide)
    · exact h.timeout.surround (by decide)
    · exact row.surround (by decide)
    · exact h.binding.surround (by decide)
  · split
    · exact .nil
    · exact .cons ((quiet_positionsText n.layers).within.surround (by decide)) .nil
  · split
    · rename_i ms hl
      exact .cons ((h.priorIdle ms hl).surround (by decide)) .nil
    · exact .nil
  · split
    · exact .literal (by decide) .nil
    · exact .nil

theorem comboBinding_within (base : KnowsOthers known) (h : ComboClosed known combo) :
    Yields (comboBinding combo) (Within known) := by
  unfold comboBinding
  split
  · rename_i hm
    refine (word_yields _ _).bind fun name hn => .ok ?_
    have ht : combo.title = name := by rw [Combo.title, hn]; rfl
    have hk := h.label (by simpa using hm)
    have hi := h.title
    rw [ht] at hk hi
    exact within_ampersand hi.lower hk
  · have hf : Plain "&bootloader" := plain_literal (by decide)
    have hp : Plain "&kp " := plain_literal (by decide)
    refine .ok ?_
    split
    · exact hf.within base
    · exact (hp.within base).append h.action (.inl (by decide))

theorem comboNode_closed (base : KnowsOthers known) (h : ComboClosed known combo)
    (names : List Document) (size : LayoutSize) :
    Yields (comboNode names size combo) (ComboNode.Closed known) := by
  refine (boardPositions_within h.positions).bind fun d hwt => ?_
  refine hwt.bind fun positions he => Yields.trivial.bind fun layers _ => ?_
  refine (comboBinding_within base h).bind fun binding hw => .ok ?_
  refine ⟨h.title, h.timeout, fun p hm => ?_, hw, fun ms hl => ?_⟩
  · obtain ⟨d, hp, rfl⟩ := mem_map.mp hm
    exact he d hp
  · dsimp only at hl
    split at hl
    · cases hl
      exact h.priorIdle
    · cases hl

theorem combosSection_within (base : KnowsOthers known)
    {combos : List Combo} (hc : ∀ combo ∈ combos, ComboClosed known combo)
    (names : List Document) (size : LayoutSize) : Yields (combosSection combos names size) (Within known) := by
  unfold combosSection
  split
  · exact .ok (Lacks.within (by decide))
  · refine Yields.bind (.mapM_all fun combo h =>
      comboNode_closed base (hc combo h) names size) fun nodes he => .ok ?_
    refine within_unlines (.literal (by decide) (.literal (by decide) (.literal (by decide) ?_)))
    refine .cons ?_ (.literal (by decide) .nil)
    refine within_join "\n\n" (by decide) (by decide) (by decide) fun s h => ?_
    obtain ⟨n, hn, rfl⟩ := mem_map.mp h
    exact within_unlines (he n hn).lines

end Keymap.Zmk
