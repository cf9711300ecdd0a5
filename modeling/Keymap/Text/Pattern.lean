import Keymap.Text.Edit

namespace Keymap.Text

inductive Pattern where
  | literal (text : List Char)
  | anyCase (text : List Char)
  | one (p : Char → Bool)
  | many (p : Char → Bool)
  | seq (first second : Pattern)
  | either (first second : Pattern)
  | group (inner : Pattern)

namespace Pattern

def empty : Pattern := literal []

def text (s : String) : Pattern := literal s.toList

def anyCaseText (s : String) : Pattern := anyCase s.toList

def atLeastOne (p : Char → Bool) : Pattern := seq (one p) (many p)

def optional (p : Pattern) : Pattern := either p empty

def all (ps : List Pattern) : Pattern :=
  ps.foldr seq empty

/-- Letters that differ only in case are equal; so are the long `s` and `s`, the Kelvin sign
and `k`. -/
def plainLetter (c : Char) : Char :=
  if c = 'ſ' then 's' else if c = 'K' then 'k' else c.toLower

def startsWithAnyCase : List Char → List Char → Bool
  | [], _ => true
  | _ :: _, [] => false
  | p :: ps, c :: cs => plainLetter p == plainLetter c && startsWithAnyCase ps cs

def takeRun {α : Type} (p : Char → Bool) (next : List Char → Option α) : List Char → Option α
  | [] => next []
  | c :: cs =>
    if p c then
      match takeRun p next cs with
      | some a => some a
      | none => next (c :: cs)
    else next (c :: cs)

structure Span where
  start : List Char
  rest : List Char

def Span.text (s : Span) : String :=
  String.ofList (s.start.take (s.start.length - s.rest.length))

def matchThen {α : Type} : Pattern → List Char → List Span →
    (List Char → List Span → Option α) → Option α
  | literal text, cs, kept, next =>
    if text.isPrefixOf cs then next (cs.drop text.length) kept else none
  | anyCase text, cs, kept, next =>
    if startsWithAnyCase text cs then next (cs.drop text.length) kept else none
  | one p, cs, kept, next =>
    match cs with
    | c :: rest => if p c then next rest kept else none
    | [] => none
  | many p, cs, kept, next => takeRun p (fun rest => next rest kept) cs
  | seq a b, cs, kept, next =>
    matchThen a cs kept fun rest kept => matchThen b rest kept next
  | either a b, cs, kept, next =>
    match matchThen a cs kept next with
    | some found => some found
    | none => matchThen b cs kept next
  | group inner, cs, kept, next =>
    matchThen inner cs kept fun rest kept =>
      next rest (kept ++ [⟨cs, rest⟩])

structure Found where
  length : Nat
  groups : List String
  deriving DecidableEq, Repr, Inhabited

namespace Found

def group (f : Found) (i : Nat) : String :=
  f.groups[i]?.getD ""

end Found

def matchFront (p : Pattern) (cs : List Char) : Option Found :=
  matchThen p cs [] fun rest kept => some ⟨cs.length - rest.length, kept.map Span.text⟩

def search (p : Pattern) : List Char → Option Found
  | [] => matchFront p []
  | c :: cs =>
    match matchFront p (c :: cs) with
    | some found => some found
    | none => search p cs

/-- Replaces the first `limit` matches, none of which is empty. `skip` counts the characters of the
last match that are still to be dropped. -/
def replaceFrom (p : Pattern) (new : Found → List Char) : Nat → Nat → List Char → List Char
  | _, _, [] => []
  | limit, skip + 1, _ :: cs => replaceFrom p new limit skip cs
  | 0, 0, cs => cs
  | limit + 1, 0, c :: cs =>
    match matchFront p (c :: cs) with
    | some found => new found ++ replaceFrom p new limit (found.length - 1) cs
    | none => c :: replaceFrom p new (limit + 1) 0 cs

def replaceAll (p : Pattern) (new : Found → String) (s : String) : String :=
  String.ofList (replaceFrom p (fun f => (new f).toList) s.length 0 s.toList)

def replaceFromM {m : Type → Type} [Monad m] (p : Pattern) (new : Found → m (List Char)) :
    Nat → List Char → m (List Char)
  | _, [] => return []
  | skip + 1, _ :: cs => replaceFromM p new skip cs
  | 0, c :: cs =>
    match matchFront p (c :: cs) with
    | some found => do
      let text ← new found
      return text ++ (← replaceFromM p new (found.length - 1) cs)
    | none => do return c :: (← replaceFromM p new 0 cs)

def replaceAllM {m : Type → Type} [Monad m] (p : Pattern) (new : Found → m String) (s : String) :
    m String := do
  return String.ofList (← replaceFromM p (fun f => do return (← new f).toList) 0 s.toList)

def replaceFirst (p : Pattern) (new : Found → String) (s : String) : String :=
  String.ofList (replaceFrom p (fun f => (new f).toList) 1 0 s.toList)

end Pattern

end Keymap.Text
