import Keymap.Text.Letter

/-!
Upper, lower and title case. A run `(first, last, step, shift)` names the characters from `first` to
`last` at distance `step`, with the distance to the other case.
-/

namespace Keymap.Text

/-- Capitals with their small letters: each capital of a run has its small letter at distance
`shift`, and that letter has no other capital. -/
def casePairs : List (Nat × Nat × Nat × Int) :=
  [(65, 90, 1, 32), (192, 214, 1, 32), (216, 222, 1, 32), (256, 302, 2, 1), (306, 310, 2, 1),
   (313, 327, 2, 1), (330, 374, 2, 1), (376, 376, 1, -121), (377, 381, 2, 1), (385, 385, 1, 210),
   (386, 388, 2, 1), (390, 390, 1, 206), (391, 391, 1, 1), (393, 394, 1, 205), (395, 395, 1, 1),
   (398, 398, 1, 79), (399, 399, 1, 202), (400, 400, 1, 203), (401, 401, 1, 1), (403, 403, 1, 205),
   (404, 404, 1, 207), (406, 406, 1, 211), (407, 407, 1, 209), (408, 408, 1, 1), (412, 412, 1, 211),
   (413, 413, 1, 213), (415, 415, 1, 214), (416, 420, 2, 1), (422, 422, 1, 218), (423, 423, 1, 1),
   (425, 425, 1, 218), (428, 428, 1, 1), (430, 430, 1, 218), (431, 431, 1, 1), (433, 434, 1, 217),
   (435, 437, 2, 1), (439, 439, 1, 219), (440, 440, 1, 1), (444, 444, 1, 1), (452, 452, 1, 2),
   (455, 455, 1, 2), (458, 458, 1, 2), (461, 475, 2, 1), (478, 494, 2, 1), (497, 497, 1, 2),
   (500, 500, 1, 1), (502, 502, 1, -97), (503, 503, 1, -56), (504, 542, 2, 1), (544, 544, 1, -130),
   (546, 562, 2, 1), (570, 570, 1, 10795), (571, 571, 1, 1), (573, 573, 1, -163),
   (574, 574, 1, 10792), (577, 577, 1, 1), (579, 579, 1, -195), (580, 580, 1, 69),
   (581, 581, 1, 71), (582, 590, 2, 1), (880, 882, 2, 1), (886, 886, 1, 1), (895, 895, 1, 116),
   (902, 902, 1, 38), (904, 906, 1, 37), (908, 908, 1, 64), (910, 911, 1, 63), (913, 929, 1, 32),
   (931, 939, 1, 32), (975, 975, 1, 8), (984, 1006, 2, 1), (1015, 1015, 1, 1), (1017, 1017, 1, -7),
   (1018, 1018, 1, 1), (1021, 1023, 1, -130), (1024, 1039, 1, 80), (1040, 1071, 1, 32),
   (1120, 1152, 2, 1), (1162, 1214, 2, 1), (1216, 1216, 1, 15), (1217, 1229, 2, 1),
   (1232, 1326, 2, 1), (1329, 1366, 1, 48), (4256, 4293, 1, 7264), (4295, 4295, 1, 7264),
   (4301, 4301, 1, 7264), (5024, 5103, 1, 38864), (5104, 5109, 1, 8), (7312, 7354, 1, -3008),
   (7357, 7359, 1, -3008), (7680, 7828, 2, 1), (7840, 7934, 2, 1), (7944, 7951, 1, -8),
   (7960, 7965, 1, -8), (7976, 7983, 1, -8), (7992, 7999, 1, -8), (8008, 8013, 1, -8),
   (8025, 8031, 2, -8), (8040, 8047, 1, -8), (8120, 8121, 1, -8), (8122, 8123, 1, -74),
   (8136, 8139, 1, -86), (8152, 8153, 1, -8), (8154, 8155, 1, -100), (8168, 8169, 1, -8),
   (8170, 8171, 1, -112), (8172, 8172, 1, -7), (8184, 8185, 1, -128), (8186, 8187, 1, -126),
   (8498, 8498, 1, 28), (8544, 8559, 1, 16), (8579, 8579, 1, 1), (9398, 9423, 1, 26),
   (11264, 11311, 1, 48), (11360, 11360, 1, 1), (11362, 11362, 1, -10743), (11363, 11363, 1, -3814),
   (11364, 11364, 1, -10727), (11367, 11371, 2, 1), (11373, 11373, 1, -10780),
   (11374, 11374, 1, -10749), (11375, 11375, 1, -10783), (11376, 11376, 1, -10782),
   (11378, 11378, 1, 1), (11381, 11381, 1, 1), (11390, 11391, 1, -10815), (11392, 11490, 2, 1),
   (11499, 11501, 2, 1), (11506, 11506, 1, 1), (42560, 42604, 2, 1), (42624, 42650, 2, 1),
   (42786, 42798, 2, 1), (42802, 42862, 2, 1), (42873, 42875, 2, 1), (42877, 42877, 1, -35332),
   (42878, 42886, 2, 1), (42891, 42891, 1, 1), (42893, 42893, 1, -42280), (42896, 42898, 2, 1),
   (42902, 42920, 2, 1), (42922, 42922, 1, -42308), (42923, 42923, 1, -42319),
   (42924, 42924, 1, -42315), (42925, 42925, 1, -42305), (42926, 42926, 1, -42308),
   (42928, 42928, 1, -42258), (42929, 42929, 1, -42282), (42930, 42930, 1, -42261),
   (42931, 42931, 1, 928), (42932, 42946, 2, 1), (42948, 42948, 1, -48), (42949, 42949, 1, -42307),
   (42950, 42950, 1, -35384), (42951, 42953, 2, 1), (42960, 42960, 1, 1), (42966, 42968, 2, 1),
   (42997, 42997, 1, 1), (65313, 65338, 1, 32), (66560, 66599, 1, 40), (66736, 66771, 1, 40),
   (66928, 66938, 1, 39), (66940, 66954, 1, 39), (66956, 66962, 1, 39), (66964, 66965, 1, 39),
   (68736, 68786, 1, 64), (71840, 71871, 1, 32), (93760, 93791, 1, 32), (125184, 125217, 1, 34)]

def unpairedCapitals : List (Nat × Nat) :=
  spacedRanges 0 (numbers
    "304 0 673 2 31 0 6825 0 611 0 4 0 3 2 2 2 2 0 3 4 6 0 1 0 1 0 1 3 2 1 1 0 10 1 5 0 111290 25 26 25
    26 25 26 0 1 1 2 0 2 1 2 3 1 7 26 25 26 1 1 3 2 7 1 6 27 1 1 3 1 4 1 0 3 6 27 25 26 25 26 25 26 25
    26 25 26 25 30 24 33 24 33 24 33 24 33 24 33 0 6501 25 6 25 6 25")

def unpairedSmall : List (Nat × Nat) :=
  spacedRanges 0 (numbers
    "170 0 10 0 4 0 36 0 81 0 6 0 16 0 53 0 13 0 13 0 14 1 14 0 3 0 49 0 48 0 18 5 27 0 2 0 1 0 2 2 2 0 1
    0 2 0 5 1 1 0 2 1 1 6 1 1 1 0 2 2 6 4 1 0 1 7 2 25 7 1 30 4 96 0 52 0 21 0 31 0 17 0 13 1 3 1 25 1 3
    0 6 0 355 0 38 1 5879 8 119 120 1 2 1 15 1 48 214 7 1 0 176 0 1 0 1 0 1 0 41 7 8 7 8 7 10 2 1 1 6 0
    3 2 1 1 10 1 2 1 10 2 1 1 10 2 1 1 121 0 13 0 16 12 109 0 3 1 3 0 27 0 4 0 4 0 2 1 8 3 2855 0 2 0 2
    6 102 0 31159 1 146 1 62 8 21 0 6 0 25 0 35 0 1 0 34 2 821 34 1 6 1 12 20375 6 12 4 3176 0 2 2 1 41
    1 8 52319 25 26 6 1 17 26 25 26 3 1 0 1 6 1 10 26 25 26 25 26 25 26 25 26 25 26 25 26 25 26 25 26 27
    28 24 1 5 26 24 1 5 26 24 1 5 26 24 1 5 26 24 1 5 1 0 1844 9 1 19")

def titleRanges : List (Nat × Nat) :=
  spacedRanges 0
    [453, 0, 2, 0, 2, 0, 38, 0, 7573, 7, 8, 7, 8, 7, 12, 0, 15, 0, 47, 0]

def ignorableRanges : List (Nat × Nat) :=
  spacedRanges 0 (numbers
    "39 0 6 0 11 0 35 0 1 0 71 0 4 0 1 0 4 0 2 1 503 191 4 1 4 0 9 1 1 0 251 6 207 0 5 0 49 44 1 0 1 1 1
    1 1 0 44 0 11 5 10 10 1 0 35 0 10 20 16 0 101 7 1 9 1 3 33 0 1 0 30 26 91 10 58 10 4 0 2 0 24 23 43
    2 44 0 7 1 6 7 41 57 55 0 1 0 4 7 4 0 3 6 10 1 13 0 15 0 58 0 4 3 8 0 20 1 26 0 2 1 57 0 4 1 4 1 2 2
    3 0 30 1 3 0 11 1 57 0 4 4 1 1 4 0 20 1 22 5 1 0 58 0 2 0 1 3 8 0 7 1 11 1 30 0 61 0 12 0 50 0 3 0
    55 0 1 2 5 2 1 3 7 1 11 1 29 0 58 0 2 0 6 0 5 1 20 1 28 1 57 1 4 3 8 0 20 1 29 0 72 0 7 2 1 0 90 0 2
    6 11 8 98 0 2 8 9 0 1 5 74 1 27 0 1 0 1 0 55 13 1 4 1 1 5 10 1 35 9 0 102 3 1 5 1 1 2 1 25 1 4 2 16
    3 13 0 2 1 6 0 15 0 94 0 608 2 946 2 29 1 30 1 30 1 64 1 1 6 8 0 2 10 3 0 5 0 45 4 51 0 65 1 34 0
    118 2 4 1 9 0 6 2 219 1 2 0 58 0 1 6 1 0 1 0 2 7 6 9 2 0 39 0 8 30 49 3 48 0 1 4 1 0 5 0 40 8 12 1
    32 3 2 1 1 2 56 0 1 1 3 0 1 2 58 7 2 1 64 5 82 2 1 12 1 6 4 0 6 0 3 1 50 62 13 0 34 100 445 0 1 2 11
    2 13 2 13 2 13 1 12 4 8 1 10 0 2 0 2 4 49 4 1 9 1 0 13 0 16 12 51 32 2955 1 113 2 125 0 15 0 96 31
    47 0 469 0 36 3 3 4 5 0 93 5 93 2 28438 0 1250 5 270 0 98 3 1 9 1 0 28 3 80 1 14 33 78 0 23 2 103 2
    3 1 8 0 3 0 4 0 25 1 5 0 151 1 26 17 13 0 38 7 25 10 46 2 48 0 2 3 2 1 17 0 21 1 66 5 2 1 2 1 12 0 8
    0 35 0 11 0 51 0 1 2 2 1 5 1 1 0 27 0 14 1 5 1 1 0 100 4 9 2 121 0 2 0 4 0 20272 0 147 16 573 15 3 0
    12 15 34 0 2 0 169 0 7 0 6 0 11 0 35 0 1 0 47 0 45 1 67 0 21 2 513 0 226 0 149 4 1029 5 1 41 1 8 582
    2 1 1 5 3 40 2 4 0 165 1 573 3 387 1 153 10 49 3 123 0 54 14 41 0 2 1 10 2 49 3 2 1 2 0 4 0 10 0 50
    2 36 4 1 7 62 0 12 1 52 8 10 3 2 0 95 2 2 0 1 1 6 0 160 0 3 7 21 1 57 1 3 0 37 6 3 4 195 7 2 2 1 0
    23 0 84 5 1 0 4 1 1 1 238 3 6 1 1 1 27 1 85 7 2 0 1 1 106 0 1 0 2 5 1 0 101 2 2 3 1 4 259 8 1 1 256
    1 1 0 4 0 144 3 2 1 4 0 32 9 40 5 2 3 8 0 9 5 2 2 46 12 1 1 406 6 1 5 1 0 82 21 2 6 1 1 1 1 122 5 3
    0 1 1 1 6 1 0 72 1 3 0 1 0 347 1 5435 8 14007 4 59 6 9 3 1035 0 63 16 64 1 1 1 16395 3 1 6 1 1 3230
    1 1 3 4700 45 2 22 544 2 9 15 2 6 30 3 148 2 1979 54 4 49 8 0 14 0 22 4 1 14 1360 6 1 16 2 6 1 1 1 4
    261 13 368 0 61 3 1504 6 109 7 2735 4 789505 0 30 95 128 239")

/-- The other characters with a single capital. -/
def toUpperRuns : List (Nat × Nat × Nat × Int) :=
  [(181, 181, 1, 743), (305, 305, 1, -232), (383, 383, 1, -300), (453, 453, 1, -1),
   (456, 456, 1, -1), (459, 459, 1, -1), (498, 498, 1, -1), (837, 837, 1, 84), (962, 962, 1, -31),
   (976, 976, 1, -62), (977, 977, 1, -57), (981, 981, 1, -47), (982, 982, 1, -54),
   (1008, 1008, 1, -86), (1009, 1009, 1, -80), (1013, 1013, 1, -96), (7296, 7296, 1, -6254),
   (7297, 7297, 1, -6253), (7298, 7298, 1, -6244), (7299, 7300, 1, -6242), (7301, 7301, 1, -6243),
   (7302, 7302, 1, -6236), (7303, 7303, 1, -6181), (7304, 7304, 1, 35266), (7835, 7835, 1, -59),
   (8126, 8126, 1, -7205)]

def toUpperLong : List (Nat × List Nat) :=
  [(223, [83, 83]), (329, [700, 78]), (496, [74, 780]), (912, [921, 776, 769]), (944, [933, 776, 769]),
   (1415, [1333, 1362]), (7830, [72, 817]), (7831, [84, 776]), (7832, [87, 778]), (7833, [89, 778]),
   (7834, [65, 702]), (8016, [933, 787]), (8018, [933, 787, 768]), (8020, [933, 787, 769]), (8022, [933, 787, 834]),
   (8064, [7944, 921]), (8065, [7945, 921]), (8066, [7946, 921]), (8067, [7947, 921]), (8068, [7948, 921]),
   (8069, [7949, 921]), (8070, [7950, 921]), (8071, [7951, 921]), (8072, [7944, 921]), (8073, [7945, 921]),
   (8074, [7946, 921]), (8075, [7947, 921]), (8076, [7948, 921]), (8077, [7949, 921]), (8078, [7950, 921]),
   (8079, [7951, 921]), (8080, [7976, 921]), (8081, [7977, 921]), (8082, [7978, 921]), (8083, [7979, 921]),
   (8084, [7980, 921]), (8085, [7981, 921]), (8086, [7982, 921]), (8087, [7983, 921]), (8088, [7976, 921]),
   (8089, [7977, 921]), (8090, [7978, 921]), (8091, [7979, 921]), (8092, [7980, 921]), (8093, [7981, 921]),
   (8094, [7982, 921]), (8095, [7983, 921]), (8096, [8040, 921]), (8097, [8041, 921]), (8098, [8042, 921]),
   (8099, [8043, 921]), (8100, [8044, 921]), (8101, [8045, 921]), (8102, [8046, 921]), (8103, [8047, 921]),
   (8104, [8040, 921]), (8105, [8041, 921]), (8106, [8042, 921]), (8107, [8043, 921]), (8108, [8044, 921]),
   (8109, [8045, 921]), (8110, [8046, 921]), (8111, [8047, 921]), (8114, [8122, 921]), (8115, [913, 921]),
   (8116, [902, 921]), (8118, [913, 834]), (8119, [913, 834, 921]), (8124, [913, 921]), (8130, [8138, 921]),
   (8131, [919, 921]), (8132, [905, 921]), (8134, [919, 834]), (8135, [919, 834, 921]), (8140, [919, 921]),
   (8146, [921, 776, 768]), (8147, [921, 776, 769]), (8150, [921, 834]), (8151, [921, 776, 834]), (8162, [933, 776, 768]),
   (8163, [933, 776, 769]), (8164, [929, 787]), (8166, [933, 834]), (8167, [933, 776, 834]), (8178, [8186, 921]),
   (8179, [937, 921]), (8180, [911, 921]), (8182, [937, 834]), (8183, [937, 834, 921]), (8188, [937, 921]),
   (64256, [70, 70]), (64257, [70, 73]), (64258, [70, 76]), (64259, [70, 70, 73]), (64260, [70, 70, 76]),
   (64261, [83, 84]), (64262, [83, 84]), (64275, [1348, 1350]), (64276, [1348, 1333]), (64277, [1348, 1339]),
   (64278, [1358, 1350]), (64279, [1348, 1341])]

/-- The other characters with a single small letter. -/
def toLowerRuns : List (Nat × Nat × Nat × Int) :=
  [(453, 453, 1, 1), (456, 456, 1, 1), (459, 459, 1, 1), (498, 498, 1, 1), (1012, 1012, 1, -60),
   (7838, 7838, 1, -7615), (8072, 8079, 1, -8), (8088, 8095, 1, -8), (8104, 8111, 1, -8),
   (8124, 8124, 1, -9), (8140, 8140, 1, -9), (8188, 8188, 1, -9), (8486, 8486, 1, -7517),
   (8490, 8490, 1, -8383), (8491, 8491, 1, -8262)]

def toLowerLong : List (Nat × List Nat) :=
  [(304, [105, 775])]

def toTitleRuns : List (Nat × Nat × Nat × Int) :=
  [(452, 452, 1, 1), (453, 453, 1, 0), (454, 454, 1, -1), (455, 455, 1, 1), (456, 456, 1, 0),
   (457, 457, 1, -1), (458, 458, 1, 1), (459, 459, 1, 0), (460, 460, 1, -1), (497, 497, 1, 1),
   (498, 498, 1, 0), (499, 499, 1, -1), (4304, 4346, 1, 0), (4349, 4351, 1, 0), (8064, 8071, 1, 8),
   (8072, 8079, 1, 0), (8080, 8087, 1, 8), (8088, 8095, 1, 0), (8096, 8103, 1, 8), (8104, 8111, 1, 0),
   (8115, 8115, 1, 9), (8124, 8124, 1, 0), (8131, 8131, 1, 9), (8140, 8140, 1, 0), (8179, 8179, 1, 9),
   (8188, 8188, 1, 0)]

def toTitleLong : List (Nat × List Nat) :=
  [(223, [83, 115]), (1415, [1333, 1410]), (8114, [8122, 837]), (8116, [902, 837]), (8119, [913, 834, 837]),
   (8130, [8138, 837]), (8132, [905, 837]), (8135, [919, 834, 837]), (8178, [8186, 837]), (8180, [911, 837]),
   (8183, [937, 834, 837]), (64256, [70, 102]), (64257, [70, 105]), (64258, [70, 108]), (64259, [70, 102, 105]),
   (64260, [70, 102, 108]), (64261, [83, 116]), (64262, [83, 116]), (64275, [1348, 1398]), (64276, [1348, 1381]),
   (64277, [1348, 1387]), (64278, [1358, 1398]), (64279, [1348, 1389])]

def isUpperChar (c : Char) : Bool :=
  if c.toNat < 128 then c.isUpper else (shiftIn casePairs c).isSome || inRanges unpairedCapitals c

def isLowerChar (c : Char) : Bool :=
  if c.toNat < 128 then c.isLower
  else (shiftIn (reverseRuns casePairs) c).isSome || inRanges unpairedSmall c

def isTitleChar (c : Char) : Bool :=
  inRanges titleRanges c

def isCased (c : Char) : Bool :=
  isUpperChar c || isLowerChar c || isTitleChar c

def recase (long : List (Nat × List Nat)) (runs : List (Nat × Nat × Nat × Int)) (c : Char) :
    List Char :=
  match long.lookup c.toNat with
  | some cs => cs.map Char.ofNat
  | none => match shiftIn runs c with
    | some d => [d]
    | none => [c]

def upperOf (c : Char) : List Char :=
  if c.toNat < 128 then [c.toUpper] else recase toUpperLong (toUpperRuns ++ reverseRuns casePairs) c

def lowerOf (c : Char) : List Char :=
  if c.toNat < 128 then [c.toLower] else recase toLowerLong (toLowerRuns ++ casePairs) c

def titleOf (c : Char) : List Char :=
  if c.toNat < 128 then [c.toUpper]
  else match toTitleLong.lookup c.toNat with
    | some cs => cs.map Char.ofNat
    | none => match shiftIn toTitleRuns c with
      | some d => [d]
      | none => upperOf c

/-- The case of the word a character stands in is decided by the nearest character that is not
ignorable. -/
def nearestIsCased : List Char → Bool
  | [] => false
  | c :: cs => if inRanges ignorableRanges c then nearestIsCased cs else isCased c

/-- The lower-case form of a character between the reversed text `before` and the text `after`:
a capital sigma at the end of a word becomes a final sigma. -/
def lowerWithin (before : List Char) (c : Char) (after : List Char) : List Char :=
  if c == 'Σ' then
    if nearestIsCased before && !nearestIsCased after then ['ς'] else ['σ']
  else lowerOf c

def lowerChars (before : List Char) : List Char → List Char
  | [] => []
  | c :: cs => lowerWithin before c cs ++ lowerChars (c :: before) cs

/-- The first letter of every run of cased letters takes title case, the others lower case. -/
def titleChars (before : List Char) (inWord : Bool) : List Char → List Char
  | [] => []
  | c :: cs =>
    (if inWord then lowerWithin before c cs else titleOf c) ++
      titleChars (c :: before) (isCased c) cs

def upper (s : String) : String :=
  String.ofList (s.toList.flatMap upperOf)

def lower (s : String) : String :=
  String.ofList (lowerChars [] s.toList)

def title (s : String) : String :=
  String.ofList (titleChars [] false s.toList)

def isUpper (s : String) : Bool :=
  s.toList.any isUpperChar && s.toList.all fun c => !(isLowerChar c || isTitleChar c)

def isLower (s : String) : Bool :=
  s.toList.any isLowerChar && s.toList.all fun c => !(isUpperChar c || isTitleChar c)

end Keymap.Text
