import Keymap.Text.Range

/-! Letters of every script: the characters of the general categories of letters. -/

namespace Keymap.Text

def letterRanges : List (Nat × Nat) :=
  spacedRanges 0
    [65, 25, 6, 25, 47, 0, 10, 0, 4, 0, 5, 22, 1, 30, 1, 457, 4, 11, 14, 4, 7, 0, 1, 0, 129, 4, 1, 1,
     2, 3, 1, 0, 6, 0, 1, 2, 1, 0, 1, 19, 1, 82, 1, 138, 8, 165, 1, 37, 2, 0, 6, 40, 71, 26, 4, 3, 45,
     42, 35, 1, 1, 98, 1, 0, 15, 1, 7, 1, 10, 2, 2, 0, 16, 0, 1, 29, 29, 88, 11, 0, 24, 32, 9, 1, 4,
     0, 5, 21, 4, 0, 9, 0, 3, 0, 23, 24, 7, 10, 5, 23, 1, 5, 17, 41, 58, 53, 3, 0, 18, 0, 7, 9, 15,
     15, 4, 7, 2, 1, 2, 21, 1, 6, 1, 0, 3, 3, 3, 0, 16, 0, 13, 1, 1, 2, 14, 1, 10, 0, 8, 5, 4, 1, 2,
     21, 1, 6, 1, 1, 1, 1, 1, 1, 31, 3, 1, 0, 19, 2, 16, 8, 1, 2, 1, 21, 1, 6, 1, 1, 1, 4, 3, 0, 18,
     0, 15, 1, 23, 0, 11, 7, 2, 1, 2, 21, 1, 6, 1, 1, 1, 4, 3, 0, 30, 1, 1, 2, 15, 0, 17, 0, 1, 5, 3,
     2, 1, 3, 3, 1, 1, 0, 1, 1, 3, 1, 3, 2, 3, 11, 22, 0, 52, 7, 1, 2, 1, 22, 1, 15, 3, 0, 26, 2, 2,
     0, 2, 1, 30, 0, 4, 7, 1, 2, 1, 22, 1, 9, 1, 4, 3, 0, 31, 1, 1, 1, 15, 1, 17, 8, 1, 2, 1, 40, 2,
     0, 16, 0, 5, 2, 8, 2, 24, 5, 5, 17, 3, 23, 1, 8, 1, 0, 2, 6, 58, 47, 1, 1, 12, 6, 58, 1, 1, 0, 1,
     4, 1, 23, 1, 0, 1, 9, 1, 1, 9, 0, 2, 4, 1, 0, 21, 3, 32, 0, 63, 7, 1, 35, 27, 4, 115, 42, 20, 0,
     16, 5, 4, 3, 3, 0, 3, 1, 7, 2, 4, 12, 12, 0, 17, 37, 1, 0, 5, 0, 2, 42, 1, 332, 1, 3, 2, 6, 1, 0,
     1, 3, 2, 40, 1, 3, 2, 32, 1, 3, 2, 6, 1, 0, 1, 3, 2, 14, 1, 56, 1, 3, 2, 66, 37, 15, 16, 85, 2,
     5, 3, 619, 2, 16, 1, 25, 5, 74, 6, 7, 7, 17, 13, 18, 14, 17, 14, 12, 1, 2, 15, 51, 35, 0, 4, 0,
     67, 88, 7, 4, 2, 33, 1, 0, 5, 69, 10, 30, 49, 29, 2, 4, 11, 43, 4, 25, 54, 22, 9, 52, 82, 0, 93,
     46, 17, 7, 54, 29, 13, 1, 10, 43, 26, 35, 41, 2, 10, 35, 2, 8, 7, 42, 2, 2, 41, 3, 1, 5, 1, 1, 3,
     0, 5, 191, 64, 277, 2, 5, 2, 37, 2, 5, 2, 7, 1, 0, 1, 0, 1, 0, 1, 30, 2, 52, 1, 6, 1, 0, 3, 2, 1,
     6, 3, 3, 2, 5, 4, 12, 5, 2, 1, 6, 116, 0, 13, 0, 16, 12, 101, 0, 4, 0, 2, 9, 1, 0, 3, 4, 6, 0, 1,
     0, 1, 0, 1, 3, 1, 10, 2, 3, 5, 4, 4, 0, 52, 1, 2683, 228, 6, 3, 3, 1, 12, 37, 1, 0, 5, 0, 2, 55,
     7, 0, 16, 22, 9, 6, 1, 6, 1, 6, 1, 6, 1, 6, 1, 6, 1, 6, 1, 6, 80, 0, 469, 1, 42, 4, 5, 1, 4, 85,
     6, 2, 1, 89, 1, 3, 5, 42, 1, 93, 17, 31, 48, 15, 512, 6591, 64, 22156, 67, 45, 2, 268, 3, 15, 10,
     1, 20, 46, 16, 30, 2, 69, 49, 8, 2, 102, 2, 63, 5, 1, 1, 0, 1, 4, 24, 15, 1, 2, 1, 3, 1, 22, 29,
     51, 14, 49, 62, 5, 3, 0, 1, 1, 11, 27, 10, 22, 25, 28, 7, 46, 28, 0, 16, 4, 1, 9, 10, 4, 1, 40,
     23, 2, 1, 7, 20, 22, 3, 0, 3, 49, 1, 0, 3, 1, 2, 4, 2, 0, 1, 0, 24, 2, 2, 10, 7, 2, 12, 5, 2, 5,
     2, 5, 9, 6, 1, 6, 1, 42, 1, 13, 6, 114, 29, 11171, 12, 22, 4, 48, 8452, 365, 2, 105, 38, 6, 12,
     4, 5, 0, 1, 9, 1, 12, 1, 4, 1, 0, 1, 1, 1, 1, 1, 107, 33, 362, 18, 63, 2, 53, 40, 11, 116, 4, 1,
     134, 36, 25, 6, 25, 11, 88, 3, 5, 2, 5, 2, 5, 2, 2, 35, 11, 1, 25, 1, 18, 1, 1, 1, 14, 2, 13, 34,
     122, 389, 28, 3, 48, 47, 31, 13, 19, 1, 7, 6, 37, 10, 29, 2, 35, 4, 7, 48, 157, 18, 35, 4, 35, 4,
     39, 8, 51, 12, 10, 1, 14, 1, 6, 1, 1, 1, 10, 1, 14, 1, 6, 1, 1, 67, 310, 9, 21, 10, 7, 24, 5, 1,
     41, 1, 8, 69, 5, 2, 0, 1, 43, 1, 1, 3, 0, 2, 22, 10, 22, 9, 30, 65, 18, 1, 1, 10, 21, 10, 25, 70,
     55, 6, 1, 64, 0, 15, 3, 1, 2, 1, 28, 42, 28, 3, 28, 35, 7, 1, 27, 27, 53, 10, 21, 10, 18, 13, 17,
     110, 72, 55, 50, 13, 50, 13, 35, 348, 41, 6, 1, 78, 28, 10, 0, 8, 21, 42, 17, 46, 20, 27, 22, 12,
     52, 57, 1, 2, 0, 13, 44, 32, 24, 26, 35, 29, 0, 2, 0, 8, 34, 3, 0, 12, 47, 14, 3, 21, 0, 1, 0,
     35, 17, 1, 24, 84, 6, 1, 0, 1, 3, 1, 14, 1, 9, 7, 46, 38, 7, 2, 1, 2, 21, 1, 6, 1, 1, 1, 4, 3, 0,
     18, 0, 12, 4, 158, 52, 18, 3, 20, 2, 30, 47, 20, 1, 1, 0, 184, 46, 41, 3, 36, 47, 20, 0, 59, 42,
     13, 0, 71, 26, 37, 6, 185, 43, 116, 63, 31, 7, 2, 0, 2, 7, 1, 1, 1, 23, 15, 0, 1, 0, 94, 7, 2,
     38, 16, 0, 1, 0, 28, 0, 10, 39, 7, 0, 21, 0, 11, 45, 19, 0, 18, 72, 263, 8, 1, 36, 17, 0, 49, 29,
     112, 6, 1, 1, 1, 37, 21, 0, 25, 5, 1, 1, 1, 31, 14, 0, 327, 18, 189, 0, 79, 921, 230, 195, 2636,
     96, 15, 1070, 4049, 582, 8633, 568, 7, 30, 17, 78, 17, 29, 18, 47, 16, 3, 31, 20, 5, 18, 688, 63,
     128, 74, 5, 0, 66, 12, 64, 1, 1, 0, 28, 6135, 8, 1237, 42, 8, 8935, 3, 1, 6, 1, 1, 1, 290, 45, 2,
     17, 3, 8, 395, 2308, 106, 5, 12, 3, 8, 7, 9, 5990, 84, 1, 70, 1, 1, 2, 0, 2, 1, 2, 3, 1, 11, 1,
     0, 1, 6, 1, 64, 1, 3, 2, 7, 1, 6, 1, 27, 1, 3, 1, 4, 1, 0, 3, 6, 1, 339, 2, 24, 1, 24, 1, 30, 1,
     24, 1, 30, 1, 24, 1, 30, 1, 24, 1, 30, 1, 24, 1, 7, 1844, 30, 481, 44, 10, 6, 16, 0, 321, 29, 18,
     43, 1268, 6, 1, 3, 1, 1, 1, 14, 1, 196, 59, 67, 7, 0, 1204, 3, 1, 26, 1, 1, 1, 0, 2, 0, 1, 9, 1,
     3, 1, 0, 1, 0, 6, 0, 4, 0, 1, 0, 1, 0, 1, 2, 1, 1, 1, 0, 2, 0, 1, 0, 1, 0, 1, 0, 1, 0, 1, 1, 1,
     0, 2, 3, 1, 6, 1, 3, 1, 3, 1, 0, 1, 9, 1, 16, 5, 2, 1, 4, 1, 16, 4420, 42719, 32, 4152, 7, 221,
     2, 5761, 14, 7472, 3103, 541, 1506, 4938]

def isLetter (c : Char) : Bool :=
  if c.toNat < 128 then c.isAlpha else inRanges letterRanges c

def isAlphabetic (s : String) : Bool :=
  !s.isEmpty && s.toList.all isLetter

end Keymap.Text
