import Keymap.Text.Letter

namespace Keymap.Text

/-- Each range lists the digits 0 to 9 in order, once or several times over. -/
def decimalRanges : List (Nat × Nat) :=
  spacedRanges 0
    [48, 9, 1574, 9, 134, 9, 198, 9, 412, 9, 118, 9, 118, 9, 118, 9, 118, 9, 118, 9, 118, 9, 118, 9,
     118, 9, 118, 9, 96, 9, 118, 9, 70, 9, 278, 9, 70, 9, 1862, 9, 38, 9, 300, 9, 128, 9, 166, 9, 6,
     9, 182, 9, 86, 9, 134, 9, 6, 9, 35270, 9, 678, 9, 38, 9, 198, 9, 22, 9, 86, 9, 406, 9, 21270, 9,
     1414, 9, 2182, 9, 812, 9, 128, 9, 60, 9, 144, 9, 278, 9, 342, 9, 118, 9, 374, 9, 102, 9, 102, 9,
     422, 9, 102, 9, 758, 9, 246, 9, 70, 9, 19638, 9, 86, 9, 134, 9, 27764, 49, 2368, 9, 422, 9, 1622,
     9, 4758, 9]

def raisedDigitRanges : List (Nat × Nat) :=
  spacedRanges 0
    [178, 1, 5, 0, 4783, 8, 1640, 0, 1685, 0, 3, 5, 6, 9, 982, 8, 11, 8, 11, 8, 89, 0, 10, 8, 1, 0,
     630, 8, 1, 8, 1, 8, 58029, 3, 1052, 8, 489, 8, 57509, 10]

def numeralRanges : List (Nat × Nat) :=
  spacedRanges 0
    [188, 2, 2357, 5, 376, 5, 120, 2, 133, 6, 217, 6, 17, 8, 433, 9, 1086, 10, 881, 2, 255, 9, 2390,
     50, 2, 4, 735, 10, 9, 10, 9, 10, 79, 9, 9, 0, 640, 0, 9, 0, 9, 0, 1385, 0, 777, 0, 25, 8, 14, 2,
     343, 3, 138, 9, 30, 7, 1, 14, 32, 9, 39, 14, 29734, 9, 320, 5, 22737, 44, 12, 56, 17, 1, 341, 26,
     36, 3, 29, 0, 8, 0, 134, 4, 1154, 7, 25, 6, 39, 8, 75, 4, 22, 5, 160, 1, 2, 15, 2, 45, 68, 4, 52,
     1, 30, 2, 75, 4, 104, 7, 24, 7, 41, 6, 330, 5, 361, 21, 158, 9, 42, 3, 112, 6, 143, 10, 379, 19,
     1349, 1, 430, 8, 871, 18, 851, 20, 1067, 110, 18156, 6, 798, 22, 25673, 19, 108, 24, 5454, 8,
     929, 58, 1, 2, 1, 3, 76, 44, 1, 14, 973, 1]

def decimalValue? (c : Char) : Option Nat :=
  (decimalRanges.find? fun r => r.1 ≤ c.toNat && c.toNat ≤ r.2).map fun r => (c.toNat - r.1) % 10

def isDecimal (c : Char) : Bool :=
  if c.toNat < 128 then c.isDigit else inRanges decimalRanges c

def isDigit (c : Char) : Bool :=
  if c.toNat < 128 then c.isDigit else inRanges decimalRanges c || inRanges raisedDigitRanges c

def isAlphanumeric (c : Char) : Bool :=
  if c.toNat < 128 then c.isAlphanum
  else isLetter c || isDigit c || inRanges numeralRanges c

def isWordChar (c : Char) : Bool :=
  isAlphanumeric c || c == '_'

end Keymap.Text
