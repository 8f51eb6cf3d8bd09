/-!
# Characters of words in the Unicode standard

Which characters may begin an identifier, and which may follow. The blocks of the newest scripts are
taken whole. Each set stands as run lengths: so many codes outside, so many inside, and so on in
turn.
-/

namespace NodeScript.Text

/-- Characters with the property `XID_Start`. -/
def wordStartRuns : List Nat :=
  [65, 26, 6, 26, 47, 1, 10, 1, 4, 1, 5, 23, 1, 31, 1, 458, 4, 12, 14, 5, 7, 1, 1, 1, 129, 5, 1, 2,
   3, 3, 1, 1, 6, 1, 1, 3, 1, 1, 1, 20, 1, 83, 1, 139, 8, 166, 1, 38, 1, 2, 6, 41, 2, 1, 68, 27, 4,
   4, 45, 43, 35, 2, 1, 99, 1, 1, 15, 2, 7, 2, 10, 3, 2, 1, 16, 1, 1, 30, 29, 89, 11, 1, 24, 33, 9,
   2, 4, 1, 5, 22, 4, 1, 9, 1, 3, 1, 23, 25, 7, 11, 5, 24, 1, 7, 16, 42, 58, 54, 3, 1, 18, 1, 7, 10,
   15, 16, 4, 8, 2, 2, 2, 22, 1, 7, 1, 1, 3, 4, 3, 1, 16, 1, 13, 2, 1, 3, 14, 2, 10, 1, 8, 6, 4, 2,
   2, 22, 1, 7, 1, 2, 1, 2, 1, 2, 31, 4, 1, 1, 19, 3, 16, 9, 1, 3, 1, 22, 1, 7, 1, 2, 1, 5, 3, 1,
   18, 1, 15, 2, 23, 1, 11, 8, 2, 2, 2, 22, 1, 7, 1, 2, 1, 5, 3, 1, 30, 2, 1, 3, 15, 1, 17, 1, 1, 6,
   3, 3, 1, 4, 3, 2, 1, 1, 1, 2, 3, 2, 3, 3, 3, 12, 22, 1, 52, 8, 1, 3, 1, 23, 1, 16, 3, 1, 26, 3,
   1, 2, 2, 2, 30, 1, 4, 8, 1, 3, 1, 23, 1, 10, 1, 5, 3, 1, 30, 3, 1, 2, 15, 2, 17, 9, 1, 3, 1, 41,
   2, 1, 16, 1, 5, 3, 8, 3, 24, 6, 5, 18, 3, 24, 1, 9, 1, 1, 2, 7, 58, 48, 1, 1, 13, 7, 58, 2, 1, 1,
   1, 5, 1, 24, 1, 1, 1, 10, 1, 1, 10, 1, 2, 5, 1, 1, 21, 4, 32, 1, 63, 8, 1, 36, 27, 5, 115, 43,
   20, 1, 16, 6, 4, 4, 3, 1, 3, 2, 7, 3, 4, 13, 12, 1, 17, 38, 1, 1, 5, 1, 2, 43, 1, 333, 1, 4, 2,
   7, 1, 1, 1, 4, 2, 41, 1, 4, 2, 33, 1, 4, 2, 7, 1, 1, 1, 4, 2, 15, 1, 57, 1, 4, 2, 67, 37, 16, 16,
   86, 2, 6, 3, 620, 2, 17, 1, 26, 5, 75, 3, 11, 7, 18, 13, 19, 14, 18, 14, 13, 1, 3, 15, 52, 35, 1,
   4, 1, 67, 89, 7, 41, 1, 1, 5, 70, 10, 31, 49, 30, 2, 5, 11, 44, 4, 26, 54, 23, 9, 53, 82, 1, 93,
   47, 17, 8, 54, 30, 13, 2, 10, 44, 26, 36, 41, 3, 10, 36, 2, 11, 5, 43, 2, 3, 41, 4, 1, 6, 1, 2,
   3, 1, 5, 192, 64, 278, 2, 6, 2, 38, 2, 6, 2, 8, 1, 1, 1, 1, 1, 1, 1, 31, 2, 53, 1, 7, 1, 1, 3, 3,
   1, 7, 3, 4, 2, 6, 4, 13, 5, 3, 1, 7, 116, 1, 13, 1, 15, 17, 98, 1, 4, 1, 2, 10, 1, 1, 2, 6, 6, 1,
   1, 1, 1, 1, 1, 16, 2, 4, 5, 5, 4, 1, 17, 41, 2679, 229, 6, 4, 3, 2, 12, 38, 1, 1, 5, 1, 2, 56, 7,
   1, 16, 23, 9, 7, 1, 7, 1, 7, 1, 7, 1, 7, 1, 7, 1, 7, 1, 7, 550, 3, 25, 9, 7, 5, 2, 5, 4, 86, 6,
   3, 1, 90, 1, 4, 5, 43, 1, 94, 17, 32, 48, 16, 512, 6592, 64, 22157, 67, 46, 2, 269, 3, 16, 10, 2,
   20, 47, 16, 31, 2, 80, 39, 9, 2, 103, 2, 83, 19, 17, 1, 3, 1, 4, 1, 23, 29, 52, 14, 50, 62, 6, 3,
   1, 1, 2, 11, 28, 10, 23, 25, 29, 7, 47, 28, 1, 16, 5, 1, 10, 10, 5, 1, 41, 23, 3, 1, 8, 20, 23,
   3, 1, 3, 50, 1, 1, 3, 2, 2, 5, 2, 1, 1, 1, 24, 3, 2, 11, 7, 3, 12, 6, 2, 6, 2, 6, 9, 7, 1, 7, 1,
   43, 1, 14, 6, 115, 29, 11172, 12, 23, 4, 49, 8452, 366, 2, 106, 38, 7, 12, 5, 5, 1, 1, 10, 1, 13,
   1, 5, 1, 1, 1, 2, 1, 2, 1, 108, 33, 139, 6, 218, 18, 64, 2, 54, 40, 10, 119, 1, 1, 1, 3, 1, 1, 1,
   1, 1, 1, 1, 1, 126, 36, 26, 6, 26, 11, 56, 2, 31, 3, 6, 2, 6, 2, 6, 2, 3, 35, 12, 1, 26, 1, 19,
   1, 2, 1, 15, 2, 14, 34, 123, 69, 53, 267, 29, 3, 49, 47, 32, 13, 30, 5, 38, 10, 30, 2, 36, 4, 8,
   1, 5, 42, 158, 18, 36, 4, 36, 4, 40, 8, 52, 12, 11, 1, 15, 1, 7, 1, 2, 1, 11, 1, 15, 1, 7, 1, 2,
   3, 52, 12, 311, 9, 22, 10, 8, 24, 6, 1, 42, 1, 9, 69, 6, 2, 1, 1, 44, 1, 2, 3, 1, 2, 23, 10, 23,
   9, 31, 65, 19, 1, 2, 10, 22, 10, 26, 6, 26, 38, 56, 6, 2, 64, 1, 15, 4, 1, 3, 1, 29, 42, 29, 3,
   29, 35, 8, 1, 28, 27, 54, 10, 22, 10, 19, 13, 18, 110, 73, 55, 51, 13, 51, 13, 36, 38, 28, 9, 23,
   250, 42, 6, 2, 16, 6, 56, 29, 10, 1, 8, 22, 42, 18, 46, 21, 27, 23, 12, 53, 57, 2, 2, 1, 13, 45,
   32, 25, 26, 36, 29, 1, 2, 1, 8, 35, 3, 1, 12, 48, 14, 4, 21, 1, 1, 1, 35, 18, 1, 25, 19, 2, 63,
   7, 1, 1, 1, 4, 1, 15, 1, 10, 7, 47, 38, 8, 2, 2, 2, 22, 1, 7, 1, 2, 1, 5, 3, 1, 18, 1, 12, 5, 30,
   10, 1, 1, 2, 1, 1, 38, 1, 1, 25, 1, 1, 1, 44, 53, 18, 4, 20, 3, 30, 48, 20, 2, 1, 1, 184, 47, 41,
   4, 36, 48, 20, 1, 59, 43, 13, 1, 71, 27, 37, 7, 185, 44, 116, 64, 31, 8, 2, 1, 2, 8, 1, 2, 1, 24,
   15, 1, 1, 1, 94, 8, 2, 39, 16, 1, 1, 1, 28, 1, 10, 40, 7, 1, 21, 1, 11, 46, 19, 1, 18, 73, 199,
   33, 31, 9, 1, 37, 17, 1, 49, 30, 112, 7, 1, 2, 1, 38, 21, 1, 25, 6, 1, 2, 1, 32, 14, 1, 23, 44,
   260, 19, 15, 1, 1, 13, 1, 34, 124, 1, 79, 922, 102, 111, 17, 196, 12, 320, 2304, 97, 15, 1072,
   17, 6, 25, 3995, 5, 583, 6841, 30, 1762, 569, 7, 31, 17, 79, 17, 30, 18, 48, 16, 4, 31, 21, 5,
   19, 432, 45, 19, 48, 144, 64, 32, 25, 2, 25, 44, 75, 5, 1, 66, 13, 64, 2, 1, 1, 14, 5, 9, 7382,
   41, 32, 97, 115, 13, 992, 7696, 4, 1, 7, 1, 2, 1, 291, 15, 1, 29, 3, 2, 1, 14, 4, 8, 396, 2308,
   107, 5, 13, 3, 9, 7, 10, 5990, 85, 1, 71, 1, 2, 2, 1, 2, 2, 2, 4, 1, 12, 1, 1, 1, 7, 1, 65, 1, 4,
   2, 8, 1, 7, 1, 28, 1, 4, 1, 5, 1, 1, 3, 7, 1, 341, 1, 25, 1, 25, 1, 31, 1, 25, 1, 31, 1, 25, 1,
   31, 1, 25, 1, 31, 1, 25, 1, 8, 1844, 43, 162, 51, 48, 62, 146, 45, 10, 7, 16, 1, 321, 30, 18, 44,
   484, 28, 228, 30, 2, 1, 207, 31, 1, 3, 1, 2, 1, 7, 2, 5, 9, 2, 224, 7, 1, 4, 1, 2, 1, 15, 1, 197,
   59, 68, 7, 1, 1204, 4, 1, 27, 1, 2, 1, 1, 2, 1, 1, 10, 1, 4, 1, 1, 1, 1, 6, 1, 4, 1, 1, 1, 1, 1,
   1, 3, 1, 2, 1, 1, 2, 1, 1, 1, 1, 1, 1, 1, 1, 1, 1, 2, 1, 1, 2, 4, 1, 7, 1, 4, 1, 4, 1, 1, 1, 10,
   1, 17, 5, 3, 1, 5, 1, 17, 4420, 42720, 32, 4383, 1, 5774, 2, 7473, 15, 622, 2466, 542, 1506,
   4939, 5, 8490, 39814, 11328]

/-- Characters that attach to others but may not follow in a word, and those that may follow without
being attached or beginning one. -/
def wordPartRuns : List Nat :=
  [183, 1, 719, 1, 256, 2, 318, 1, 151, 10, 134, 10, 198, 10, 313, 1, 55, 1, 2, 3, 8, 4, 1, 2, 22,
   10, 18, 2, 59, 2, 6, 2, 2, 2, 25, 10, 19, 1, 58, 3, 37, 10, 19, 1, 58, 3, 8, 1, 1, 2, 25, 10, 18,
   2, 60, 1, 6, 2, 2, 2, 25, 10, 79, 1, 1, 2, 3, 3, 1, 3, 25, 10, 17, 3, 61, 4, 33, 10, 18, 2, 58,
   1, 2, 1, 1, 2, 33, 10, 3, 1, 14, 2, 59, 2, 5, 3, 1, 3, 25, 10, 18, 2, 76, 2, 6, 7, 7, 10, 2, 2,
   63, 1, 28, 10, 89, 1, 28, 10, 70, 10, 20, 2, 63, 1, 171, 2, 4, 1, 6, 1, 2, 2, 3, 10, 12, 2, 10,
   12, 21, 2, 2, 6, 2, 14, 716, 9, 1092, 1, 7, 8, 1, 2, 23, 10, 38, 10, 265, 4, 2, 3, 4, 2, 1, 6,
   13, 10, 128, 11, 62, 2, 58, 1, 1, 1, 9, 1, 1, 2, 8, 6, 13, 10, 6, 10, 36, 1, 31, 2, 36, 1, 57, 4,
   14, 10, 40, 32, 4, 2, 8, 10, 45, 1, 2, 3, 1, 1, 53, 8, 8, 2, 10, 10, 6, 10, 135, 1, 21, 1, 789,
   1, 49, 2, 19, 1, 136, 4, 1, 3, 4118, 1, 29988, 10, 70, 3, 432, 2, 2, 1, 88, 68, 12, 10, 38, 10,
   72, 1, 48, 1, 48, 2, 4, 2, 2, 2, 16, 10, 22, 10, 53, 2, 2, 2, 24, 1, 2, 10, 33, 1, 1, 1, 109, 1,
   2, 2, 5, 1, 237, 2, 1, 2, 1, 2, 1, 1, 3, 10, 21049, 2, 24, 3, 192, 10, 37, 1, 37, 59, 1280, 10,
   2182, 10, 6, 10, 385, 5, 32, 10, 262, 1, 1, 1, 99, 10, 18, 49, 4, 2, 55, 10, 50, 1, 9, 10, 5, 2,
   59, 52, 9, 1, 14, 1, 1, 10, 82, 3, 3, 2, 172, 3, 13, 10, 8, 2, 59, 1, 1, 4, 2, 2, 2, 2, 21, 2,
   85, 2, 15, 1, 1, 2, 103, 3, 8, 2, 3, 1, 10, 10, 87, 2, 6, 1, 1, 2, 1, 1, 2, 1, 14, 10, 214, 2, 6,
   4, 2, 1, 113, 3, 8, 2, 1, 1, 17, 10, 82, 1, 1, 2, 16, 10, 6, 20, 58, 1, 1, 2, 4, 1, 9, 10, 242,
   3, 9, 1, 167, 10, 71, 5, 1, 2, 7, 3, 13, 10, 119, 3, 8, 4, 4, 1, 84, 1, 29, 2, 62, 1, 201, 1, 3,
   1, 1, 1, 136, 10, 53, 1, 14, 1, 17, 10, 79, 1, 7, 1, 2, 1, 155, 10, 48, 5, 4, 2, 1, 1, 9, 10, 54,
   10, 267, 2, 12, 1, 48, 2, 8, 2, 16, 10, 16848, 3, 3, 10, 2342, 10, 86, 10, 134, 10, 534, 10, 471,
   55, 23912, 10, 1069, 1, 296, 1, 47, 1, 1357, 50, 2368, 10, 422, 10, 502, 10, 247, 10, 853, 10,
   4758, 10, 787494, 96]

end NodeScript.Text
