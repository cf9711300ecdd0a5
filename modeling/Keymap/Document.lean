import Keymap.Decimal.Arithmetic
import Keymap.Text.Edit
import Keymap.Text.Quoted

namespace Keymap

inductive Field where
  | word (text : String)
  | number (n : Int)
  deriving DecidableEq, Repr, Inhabited

instance : Coe String Field := ⟨Field.word⟩

inductive Document where
  | null
  | flag (b : Bool)
  | whole (n : Int)
  | decimal (x : Decimal.Double)
  | text (s : String)
  | list (items : List Document)
  | record (entries : List (Field × Document))
  deriving Repr, Inhabited

mutual

def Document.beq : Document → Document → Bool
  | .null, .null => true
  | .flag a, .flag b => a == b
  | .whole a, .whole b => a == b
  | .decimal a, .decimal b => a == b
  | .text a, .text b => a == b
  | .list a, .list b => Document.beqItems a b
  | .record a, .record b => Document.beqEntries a b
  | _, _ => false

def Document.beqItems : List Document → List Document → Bool
  | [], [] => true
  | a :: as, b :: bs => a.beq b && Document.beqItems as bs
  | _, _ => false

def Document.beqEntries : List (Field × Document) → List (Field × Document) → Bool
  | [], [] => true
  | (f, a) :: as, (g, b) :: bs => f == g && a.beq b && Document.beqEntries as bs
  | _, _ => false

end

instance : BEq Document := ⟨Document.beq⟩

instance : Coe String Document := ⟨Document.text⟩

namespace Field

def text : Field → String
  | .word s => s
  | .number n => toString n

def quoted : Field → String
  | .word s => Text.quote s
  | .number n => toString n

def toDocument : Field → Document
  | .word s => .text s
  | .number n => .whole n

def ofDocument? : Document → Option Field
  | .text s => some (.word s)
  | .whole n => some (.number n)
  | .flag b => some (.number (if b then 1 else 0))
  | .decimal x => x.whole?.map .number
  | _ => none

def word? : Field → Option String
  | .word s => some s
  | .number _ => none

end Field

namespace Document

mutual

def quoted : Document → String
  | .null => "None"
  | .flag true => "True"
  | .flag false => "False"
  | .whole n => toString n
  | .decimal x => x.text
  | .text s => Text.quote s
  | .list items => "[" ++ Text.join ", " (quotedItems items) ++ "]"
  | .record entries => "\x7b" ++ Text.join ", " (quotedEntries entries) ++ "\x7d"

def quotedItems : List Document → List String
  | [] => []
  | d :: ds => d.quoted :: quotedItems ds

def quotedEntries : List (Field × Document) → List String
  | [] => []
  | (f, d) :: es => (f.quoted ++ ": " ++ d.quoted) :: quotedEntries es

end

def toText : Document → String
  | .text s => s
  | d => d.quoted

/-- Empty and zero values count as absent. -/
def isPresent : Document → Bool
  | .null => false
  | .flag b => b
  | .whole n => n != 0
  | .decimal x => !x.isZero
  | .text s => !s.isEmpty
  | .list items => !items.isEmpty
  | .record entries => !entries.isEmpty

def isNull : Document → Bool
  | .null => true
  | _ => false

def isText : Document → Bool
  | .text _ => true
  | _ => false

def isWord (d : Document) (s : String) : Bool :=
  match d with
  | .text t => t == s
  | _ => false

def text? : Document → Option String
  | .text s => some s
  | _ => none

def items? : Document → Option (List Document)
  | .list items => some items
  | _ => none

def entries? : Document → Option (List (Field × Document))
  | .record entries => some entries
  | _ => none

def kind : Document → String
  | .null => "NoneType"
  | .flag _ => "bool"
  | .whole _ => "int"
  | .decimal _ => "float"
  | .text _ => "str"
  | .list _ => "list"
  | .record _ => "dict"

def sameNumber : Document → Document → Bool
  | .decimal x, .decimal y => x.same y
  | .decimal x, d | d, .decimal x =>
    match Field.ofDocument? d with
    | some (.number n) => x.compareTo n == some .eq
    | _ => false
  | a, b =>
    match Field.ofDocument? a, Field.ofDocument? b with
    | some (.number m), some (.number n) => m == n
    | _, _ => false

mutual

/-- Equality by value: numbers are equal across kinds, and the order of entries does not count. -/
def same : Document → Document → Bool
  | .null, d => d.isNull
  | .text s, d => d.isWord s
  | .list as, .list bs => sameItems as bs
  | .record as, .record bs => as.length == bs.length && sameEntries bs as
  | .list _, _ | .record _, _ => false
  | a, b => sameNumber a b

def sameItems : List Document → List Document → Bool
  | [], [] => true
  | a :: as, b :: bs => a.same b && sameItems as bs
  | _, _ => false

def sameEntries (others : List (Field × Document)) : List (Field × Document) → Bool
  | [] => true
  | (f, a) :: as => ((others.lookup f).map fun b => a.same b).getD false && sameEntries others as

end

end Document

/-- Entries in order, at most one for each name. -/
abbrev Entries := List (Field × Document)

def assign {α β : Type} [BEq α] (key : α) (value : β) : List (α × β) → List (α × β)
  | [] => [(key, value)]
  | (k, v) :: rest => if k == key then (k, value) :: rest else (k, v) :: assign key value rest

def assignAll {α β : Type} [BEq α] (start entries : List (α × β)) : List (α × β) :=
  entries.foldl (fun acc e => assign e.1 e.2 acc) start

namespace Document

def get? (d : Document) (field : Field) : Option Document :=
  match d with
  | .record entries => entries.lookup field
  | _ => none

mutual

def hasFlag : Document → Bool
  | .flag _ => true
  | .list items => hasFlagItem items
  | .record entries => hasFlagEntry entries
  | _ => false

def hasFlagItem : List Document → Bool
  | [] => false
  | d :: ds => d.hasFlag || hasFlagItem ds

def hasFlagEntry : List (Field × Document) → Bool
  | [] => false
  | (_, d) :: es => d.hasFlag || hasFlagEntry es

end

def getD (d : Document) (field : Field) (default : Document := .null) : Document :=
  (d.get? field).getD default

end Document

end Keymap
