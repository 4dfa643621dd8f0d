import SmallC.Text.Ranges

/-!
# Letters

The code points of the Unicode categories Lu, Ll, Lt, Lm and Lo.
-/

namespace SmallC.Text

def letterRangesA : Array (Nat × Nat) := ofGaps [
  170, 0, 11, 0, 5, 0, 6, 22, 2, 30, 2, 457, 5, 11, 15, 4, 8, 0, 2, 0, 130, 4, 2, 1, 3, 3, 2, 0, 7, 0, 2, 2,
  2, 0, 2, 19, 2, 82, 2, 138, 9, 165, 2, 37, 3, 0, 7, 40, 72, 26, 5, 3, 46, 42, 36, 1, 2, 98, 2, 0, 16, 1, 8,
  1, 11, 2, 3, 0, 17, 0, 2, 29, 30, 88, 12, 0, 25, 32, 10, 1, 5, 0, 6, 21, 5, 0, 10, 0, 4, 0, 24, 24, 8, 10,
  6, 23, 2, 5, 18, 41, 59, 53, 4, 0, 19, 0, 8, 9, 16, 15, 5, 7, 3, 1, 3, 21, 2, 6, 2, 0, 4, 3, 4, 0, 17, 0,
  14, 1, 2, 2, 15, 1, 11, 0, 9, 5, 5, 1, 3, 21, 2, 6, 2, 1, 2, 1, 2, 1, 32, 3, 2, 0, 20, 2, 17, 8, 2, 2, 2,
  21, 2, 6, 2, 1, 2, 4, 4, 0, 19, 0, 16, 1, 24, 0, 12, 7, 3, 1, 3, 21, 2, 6, 2, 1, 2, 4, 4, 0, 31, 1, 2, 2,
  16, 0, 18, 0, 2, 5, 4, 2, 2, 3, 4, 1, 2, 0, 2, 1, 4, 1, 4, 2, 4, 11, 23, 0, 53, 7, 2, 2]

def letterRangesB : Array (Nat × Nat) := ofGaps [
  3090, 22, 2, 15, 4, 0, 27, 2, 3, 0, 3, 1, 31, 0, 5, 7, 2, 2, 2, 22, 2, 9, 2, 4, 4, 0, 32, 1, 2, 1, 16, 1,
  18, 8, 2, 2, 2, 40, 3, 0, 17, 0, 6, 2, 9, 2, 25, 5, 6, 17, 4, 23, 2, 8, 2, 0, 3, 6, 59, 47, 2, 1, 13, 6,
  59, 1, 2, 0, 2, 4, 2, 23, 2, 0, 2, 9, 2, 1, 10, 0, 3, 4, 2, 0, 22, 3, 33, 0, 64, 7, 2, 35, 28, 4, 116, 42,
  21, 0, 17, 5, 5, 3, 4, 0, 4, 1, 8, 2, 5, 12, 13, 0, 18, 37, 2, 0, 6, 0, 3, 42, 2, 332, 2, 3, 3, 6, 2, 0, 2,
  3, 3, 40, 2, 3, 3, 32, 2, 3, 3, 6, 2, 0, 2, 3, 3, 14, 2, 56, 2, 3, 3, 66, 38, 15, 17, 85, 3, 5, 4, 619, 3,
  16, 2, 25, 6, 74, 7, 7, 8, 17, 14, 18, 15, 17, 15, 12, 2, 2, 16, 51, 36, 0, 5, 0, 68, 88, 8, 4, 3, 33, 2,
  0, 6, 69, 11, 30, 50, 29, 3, 4, 12, 43, 5, 25, 55, 22, 10, 52, 83, 0, 94, 46, 18, 7, 55, 29, 14, 1, 11, 43]

def letterRangesC : Array (Nat × Nat) := ofGaps [
  7168, 35, 42, 2, 11, 35, 3, 8, 8, 42, 3, 2, 42, 3, 2, 5, 2, 1, 4, 0, 6, 191, 65, 277, 3, 5, 3, 37, 3, 5, 3,
  7, 2, 0, 2, 0, 2, 0, 2, 30, 3, 52, 2, 6, 2, 0, 4, 2, 2, 6, 4, 3, 3, 5, 5, 12, 6, 2, 2, 6, 117, 0, 14, 0,
  17, 12, 102, 0, 5, 0, 3, 9, 2, 0, 4, 4, 7, 0, 2, 0, 2, 0, 2, 3, 2, 10, 3, 3, 6, 4, 5, 0, 53, 1, 2684, 228,
  7, 3, 4, 1, 13, 37, 2, 0, 6, 0, 3, 55, 8, 0, 17, 22, 10, 6, 2, 6, 2, 6, 2, 6, 2, 6, 2, 6, 2, 6, 2, 6, 81,
  0, 470, 1, 43, 4, 6, 1, 5, 85, 7, 2, 2, 89, 2, 3, 6, 42, 2, 93, 18, 31, 49, 15, 513, 6591, 65, 22156, 68,
  45, 3, 268, 4, 15, 11, 1, 21, 46, 17, 30, 3, 69, 50, 8, 3, 102, 3, 63, 6, 1, 2, 0, 2, 4, 25, 15, 2, 2, 2,
  3, 2, 22, 30, 51, 15, 49, 63, 5, 4, 0, 2, 1, 12, 27, 11, 22, 26, 28, 8, 46, 29, 0, 17, 4, 2, 9, 11, 4, 2,
  40, 24, 2]

def letterRangesD : Array (Nat × Nat) := ofGaps [
  43588, 7, 21, 22, 4, 0, 4, 49, 2, 0, 4, 1, 3, 4, 3, 0, 2, 0, 25, 2, 3, 10, 8, 2, 13, 5, 3, 5, 3, 5, 10, 6,
  2, 6, 2, 42, 2, 13, 7, 114, 30, 11171, 13, 22, 5, 48, 8453, 365, 3, 105, 39, 6, 13, 4, 6, 0, 2, 9, 2, 12,
  2, 4, 2, 0, 2, 1, 2, 1, 2, 107, 34, 362, 19, 63, 3, 53, 41, 11, 117, 4, 2, 134, 37, 25, 7, 25, 12, 88, 4,
  5, 3, 5, 3, 5, 3, 2, 36, 11, 2, 25, 2, 18, 2, 1, 2, 14, 3, 13, 35, 122, 390, 28, 4, 48, 48, 31, 14, 19, 2,
  7, 7, 37, 11, 29, 3, 35, 5, 7, 49, 157, 19, 35, 5, 35, 5, 39, 9, 51, 13, 10, 2, 14, 2, 6, 2, 1, 2, 10, 2,
  14, 2, 6, 2, 1, 68, 310, 10, 21, 11, 7, 25, 5, 2, 41, 2, 8, 70, 5, 3, 0, 2, 43, 2, 1, 4, 0, 3, 22, 11, 22,
  10, 30, 66, 18, 2, 1, 11, 21, 11, 25, 71, 55, 7, 1, 65, 0, 16, 3, 2, 2, 2, 28, 43, 28, 4, 28, 36, 7, 2, 27,
  28, 53, 11, 21, 11, 18, 14, 17, 111, 72]

def letterRangesE : Array (Nat × Nat) := ofGaps [
  68736, 50, 14, 50, 14, 35, 349, 41, 7, 1, 79, 28, 11, 0, 9, 21, 43, 17, 47, 20, 28, 22, 13, 52, 58, 1, 3,
  0, 14, 44, 33, 24, 27, 35, 30, 0, 3, 0, 9, 34, 4, 0, 13, 47, 15, 3, 22, 0, 2, 0, 36, 17, 2, 24, 20, 1, 64,
  6, 2, 0, 2, 3, 2, 14, 2, 9, 8, 46, 39, 7, 3, 1, 3, 21, 2, 6, 2, 1, 2, 4, 4, 0, 19, 0, 13, 4, 159, 52, 19,
  3, 21, 2, 31, 47, 21, 1, 2, 0, 185, 46, 42, 3, 37, 47, 21, 0, 60, 42, 14, 0, 72, 26, 38, 6, 186, 43, 117,
  63, 32, 7, 3, 0, 3, 7, 2, 1, 2, 23, 16, 0, 2, 0, 95, 7, 3, 38, 17, 0, 2, 0, 29, 0, 11, 39, 8, 0, 22, 0, 12,
  45, 20, 0, 19, 72, 264, 8, 2, 36, 18, 0, 50, 29, 113, 6, 2, 1, 2, 37, 22, 0, 26, 5, 2, 1, 2, 31, 15, 0,
  328, 18, 16, 0, 2, 12, 2, 33, 125, 0, 80, 921, 231, 195, 2637, 96, 16, 1071, 18, 5, 4026, 582, 8634, 568,
  8, 30, 18, 78, 18, 29, 19, 47, 17, 3, 32, 20, 6, 18, 689, 63, 129, 74]

def letterRangesF : Array (Nat × Nat) := ofGaps [
  94032, 0, 67, 12, 65, 1, 2, 0, 29, 6135, 9, 1237, 43, 8, 8936, 3, 2, 6, 2, 1, 2, 290, 16, 0, 30, 2, 3, 0,
  15, 3, 9, 395, 2309, 106, 6, 12, 4, 8, 8, 9, 5991, 84, 2, 70, 2, 1, 3, 0, 3, 1, 3, 3, 2, 11, 2, 0, 2, 6, 2,
  64, 2, 3, 3, 7, 2, 6, 2, 27, 2, 3, 2, 4, 2, 0, 4, 6, 2, 339, 3, 24, 2, 24, 2, 30, 2, 24, 2, 30, 2, 24, 2,
  30, 2, 24, 2, 30, 2, 24, 2, 7, 1845, 30, 7, 5, 262, 61, 147, 44, 11, 6, 17, 0, 322, 29, 19, 43, 485, 27,
  757, 6, 2, 3, 2, 1, 2, 14, 2, 196, 60, 67, 8, 0, 1205, 3, 2, 26, 2, 1, 2, 0, 3, 0, 2, 9, 2, 3, 2, 0, 2, 0,
  7, 0, 5, 0, 2, 0, 2, 0, 2, 2, 2, 1, 2, 0, 3, 0, 2, 0, 2, 0, 2, 0, 2, 0, 2, 1, 2, 0, 3, 3, 2, 6, 2, 3, 2, 3,
  2, 0, 2, 9, 2, 16, 6, 2, 2, 4, 2, 16, 4421, 42719, 33, 4153, 7, 221, 3, 5761, 15, 7472, 3104, 541, 1507,
  4938, 6, 4191]

def letterRanges : Array (Nat × Nat) :=
  letterRangesA ++ letterRangesB ++ letterRangesC ++ letterRangesD ++ letterRangesE ++ letterRangesF

def isLetter (c : Char) : Bool :=
  if c.toNat < 128 then c.isAlpha else inRanges letterRanges c

end SmallC.Text
