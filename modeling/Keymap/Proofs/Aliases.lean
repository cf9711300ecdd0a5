import Keymap.Proofs.Templates

namespace Keymap

open List

namespace Alias

/-- An alias with these parameters, whose patterns mention no others. Calling a parameter `self` would
clash with a parameter of the program. -/
structure Declares (rule : Alias) (names : List String) : Prop where
  params : rule.params = .list (names.map .text)
  plain : ∀ name ∈ names, name ≠ "self" ∧ Template.IsName name.toList
  support : ∃ items, rule.support = .list items
  qmk : ∃ pattern, rule.qmkPattern = .text pattern ∧
    Template.mentionsOnly names none pattern.toList = true
  zmk : ∃ pattern, rule.zmkPattern = .text pattern ∧
    Template.mentionsOnly names none pattern.toList = true

end Alias

structure Arguments.For (args : Arguments) (names : List String) : Prop where
  known : ∀ arg ∈ args, ∃ name ∈ names, arg.1 = .text name
  given : ∀ name ∈ names, ∃ d, (.text name, d) ∈ args

namespace Document

theorem put_text (name : String) (value : Document) (pairs : Arguments) :
    ∃ after, put (.text name) value pairs = .ok after ∧ (.text name, value) ∈ after ∧
      (∀ p ∈ after, p.1 = .text name ∨ ∃ q ∈ pairs, q.1 = p.1) ∧ ∀ q ∈ pairs, ∃ d, (q.1, d) ∈ after := by
  by_cases ht : pairs.any fun p => p.1.same (.text name)
  · refine ⟨pairs.map fun p => if p.1.same (.text name) then (p.1, value) else p, ?_, ?_, ?_, ?_⟩
    · simp [put, ht, asField, ok_bind, ok_pure]
    · obtain ⟨p, h, hs⟩ := any_eq_true.mp ht
      exact mem_map.mpr ⟨p, h, by rw [if_pos hs, eq_text_of_same hs]⟩
    · intro p h
      obtain ⟨q, old, rfl⟩ := mem_map.mp h
      refine .inr ⟨q, old, ?_⟩
      split <;> rfl
    · intro q h
      by_cases hs : q.1.same (.text name)
      · exact ⟨value, mem_map.mpr ⟨q, h, by rw [if_pos hs]⟩⟩
      · exact ⟨q.2, mem_map.mpr ⟨q, h, by rw [if_neg hs]⟩⟩
  · refine ⟨pairs ++ [(.text name, value)], ?_, by simp, ?_, ?_⟩
    · simp [put, ht, asField, ok_bind, ok_pure]
    · intro p h
      rcases mem_append.mp h with old | new
      · exact .inr ⟨p, old, rfl⟩
      · exact .inl (by rw [mem_singleton.mp new])
    · exact fun q h => ⟨q.2, mem_append_left _ h⟩

end Document

namespace Alias

variable {rule : Alias} {names : List String} {said : List String} {args : Arguments}

theorem Declares.length (h : rule.Declares names) : rule.params.length = .ok names.length := by
  rw [h.params, Document.length, length_map]

theorem Declares.supports_ok (h : rule.Declares names) (firmware : String) :
    ∃ answer, rule.supports firmware = .ok answer := by
  obtain ⟨items, hl⟩ := h.support
  exact ⟨_, by rw [supports, hl]; rfl⟩

theorem put_all {read : Document → String → Result Document}
    (hr : ∀ name ∈ names, ∀ text ∈ said, ∃ d, read (.text name) text = .ok d)
    (hc : said.length = names.length) (start : Arguments) :
    ∃ args, (((names.map Document.text).zip said).foldlM (fun args (param, text) => do
        Document.put param (← read param text) args) start : Result Arguments) = .ok args ∧
      (∀ p ∈ args, (∃ name ∈ names, p.1 = .text name) ∨ ∃ q ∈ start, q.1 = p.1) ∧
      (∀ name ∈ names, ∃ d, (.text name, d) ∈ args) ∧ ∀ q ∈ start, ∃ d, (q.1, d) ∈ args := by
  -- The parameters so far, in `start`, are kept by those that come.
  induction names generalizing said start with
  | nil => exact ⟨start, rfl, fun p h => .inr ⟨p, h, rfl⟩, by simp, fun q h => ⟨q.2, h⟩⟩
  | cons name names ih =>
    cases said with
    | nil => cases hc
    | cons text said =>
      obtain ⟨d, hrd⟩ := hr name mem_cons_self text mem_cons_self
      obtain ⟨next, hp, hh, hf, hkp⟩ := Document.put_text name d start
      obtain ⟨args, hd, hkn, hg, hk⟩ := ih
        (fun other h t hsd => hr other (mem_cons_of_mem _ h) t (mem_cons_of_mem _ hsd))
        (by simpa using hc) next
      refine ⟨args, ?_, ?_, ?_, ?_⟩
      · simp only [map_cons, zip_cons_cons, foldlM_cons, hrd, ok_bind, hp]
        exact hd
      · intro p h
        rcases hkn p h with ⟨other, ho, hs⟩ | ⟨q, hn, hs⟩
        · exact .inl ⟨other, mem_cons_of_mem _ ho, hs⟩
        · rcases hf q hn with hnm | ⟨r, hst, hsm⟩
          · exact .inl ⟨name, mem_cons_self, hs.symm.trans hnm⟩
          · exact .inr ⟨r, hst, hsm.trans hs⟩
      · intro other h
        rcases mem_cons.mp h with rfl | hl
        · exact hk _ hh
        · exact hg other hl
      · intro q h
        obtain ⟨d', hn⟩ := hkp q h
        exact hk (q.1, d') hn

theorem argumentsFor_ok (hd : rule.Declares names) (h : said.length = names.length)
    (read : Document → String → Result Document)
    (hr : ∀ name ∈ names, ∀ text ∈ said, ∃ d, read (.text name) text = .ok d) :
    ∃ args, rule.argumentsFor said read = .ok args ∧ args.For names := by
  obtain ⟨args, hdn, hk, hg, -⟩ := put_all hr h []
  refine ⟨args, ?_, fun p hm => (hk p hm).resolve_right (by simp), hg⟩
  rw [argumentsFor, hd.params]
  exact hdn

theorem namedArguments_ok (hd : rule.Declares names) (hf : args.For names) (firmware : String) :
    ∃ named, namedArguments firmware args = .ok named ∧ ∀ name ∈ names, ∃ d, named.lookup name = some d := by
  let named := args.map fun p => (p.1.toText, p.2)
  have hsl : named.lookup "self" = none := by
    rw [lookup_eq_none_iff]
    intro p h
    obtain ⟨arg, ha, rfl⟩ := mem_map.mp h
    obtain ⟨name, hn, hs⟩ := hf.known arg ha
    have hdf := (hd.plain name hn).1
    simpa [hs, Document.toText] using hdf.symm
  refine ⟨named, ?_, fun name hn => ?_⟩
  · refine bind_eq_ok.mpr ⟨named, mapM_eq_ok.mpr (forall₂_map_right_iff.mpr
      (forall₂_same.mpr fun p h => ?_)), by simp [hsl, ok_pure]⟩
    obtain ⟨name, -, hs⟩ := hf.known p h
    simp [hs, Document.toText]
  · obtain ⟨d, h⟩ := hf.given name hn
    refine Option.isSome_iff_exists.mp (lookup_isSome_iff.mpr ?_)
    exact ⟨(name, d), mem_map.mpr ⟨_, h, rfl⟩, beq_self_eq_true name⟩

theorem expand_ok (hd : rule.Declares names) {named : List (String × Document)}
    (hg : ∀ name ∈ names, ∃ d, named.lookup name = some d) {pattern : Document}
    (h : ∃ text, pattern = .text text ∧ Template.mentionsOnly names none text.toList) :
    ∃ text, expand pattern named = .ok text := by
  obtain ⟨template, rfl, h⟩ := h
  exact Template.expand_ok (fun name hm => (hd.plain name hm).2) hg h

theorem toQmk_ok (h : rule.Declares names) (hf : args.For names) : ∃ text, rule.toQmk args = .ok text := by
  obtain ⟨named, hn, hg⟩ := namedArguments_ok h hf "qmk"
  obtain ⟨answer, ha⟩ := h.supports_ok "qmk"
  obtain ⟨text, ht⟩ := expand_ok h hg h.qmk
  rw [toQmk, hn]
  simp only [ok_bind, ha, ht]
  split <;> exact ⟨_, rfl⟩

theorem toZmk_ok (h : rule.Declares names) (hf : args.For names) : ∃ text, rule.toZmk args = .ok text := by
  obtain ⟨named, hn, hg⟩ := namedArguments_ok h hf "zmk"
  obtain ⟨answer, ha⟩ := h.supports_ok "zmk"
  obtain ⟨text, ht⟩ := expand_ok h hg h.zmk
  rw [toZmk, hn]
  simp only [ok_bind, ha, ht]
  split <;> exact ⟨_, rfl⟩

end Alias

end Keymap
