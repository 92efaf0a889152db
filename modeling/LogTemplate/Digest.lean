/-!
The digest of 64 bits that stands for a long text: XXH3 with seed zero and the default secret. Data
is read in little-endian words. Short data is mixed as a whole; data of more than 240 bytes runs
through eight accumulators in stripes of 64 bytes.
-/

namespace LogTemplate.Digest

def secret : Array UInt8 := #[
  0xb8, 0xfe, 0x6c, 0x39, 0x23, 0xa4, 0x4b, 0xbe, 0x7c, 0x01, 0x81, 0x2c, 0xf7, 0x21, 0xad, 0x1c,
  0xde, 0xd4, 0x6d, 0xe9, 0x83, 0x90, 0x97, 0xdb, 0x72, 0x40, 0xa4, 0xa4, 0xb7, 0xb3, 0x67, 0x1f,
  0xcb, 0x79, 0xe6, 0x4e, 0xcc, 0xc0, 0xe5, 0x78, 0x82, 0x5a, 0xd0, 0x7d, 0xcc, 0xff, 0x72, 0x21,
  0xb8, 0x08, 0x46, 0x74, 0xf7, 0x43, 0x24, 0x8e, 0xe0, 0x35, 0x90, 0xe6, 0x81, 0x3a, 0x26, 0x4c,
  0x3c, 0x28, 0x52, 0xbb, 0x91, 0xc3, 0x00, 0xcb, 0x88, 0xd0, 0x65, 0x8b, 0x1b, 0x53, 0x2e, 0xa3,
  0x71, 0x64, 0x48, 0x97, 0xa2, 0x0d, 0xf9, 0x4e, 0x38, 0x19, 0xef, 0x46, 0xa9, 0xde, 0xac, 0xd8,
  0xa8, 0xfa, 0x76, 0x3f, 0xe3, 0x9c, 0x34, 0x3f, 0xf9, 0xdc, 0xbb, 0xc7, 0xc7, 0x0b, 0x4f, 0x1d,
  0x8a, 0x51, 0xe0, 0x4b, 0xcd, 0xb4, 0x59, 0x31, 0xc8, 0x9f, 0x7e, 0xc9, 0xd9, 0x78, 0x73, 0x64,
  0xea, 0xc5, 0xac, 0x83, 0x34, 0xd3, 0xeb, 0xc3, 0xc5, 0x81, 0xa0, 0xff, 0xfa, 0x13, 0x63, 0xeb,
  0x17, 0x0d, 0xdd, 0x51, 0xb7, 0xf0, 0xda, 0x49, 0xd3, 0x16, 0x55, 0x26, 0x29, 0xd4, 0x68, 0x9e,
  0x2b, 0x16, 0xbe, 0x58, 0x7d, 0x47, 0xa1, 0xfc, 0x8f, 0xf8, 0xb8, 0xd1, 0x7a, 0xd0, 0x31, 0xce,
  0x45, 0xcb, 0x3a, 0x8f, 0x95, 0x16, 0x04, 0x28, 0xaf, 0xd7, 0xfb, 0xca, 0xbb, 0x4b, 0x40, 0x7e]

def prime32A : UInt64 := 0x9E3779B1
def prime32B : UInt64 := 0x85EBCA77
def prime32C : UInt64 := 0xC2B2AE3D
def prime64A : UInt64 := 0x9E3779B185EBCA87
def prime64B : UInt64 := 0xC2B2AE3D27D4EB4F
def prime64C : UInt64 := 0x165667B19E3779F9
def prime64D : UInt64 := 0x85EBCA77C2B2AE63
def prime64E : UInt64 := 0x27D4EB2F165667C5

/-- The word of `width` bytes at an offset, the least byte first. Bytes past the end are zero. -/
def wordAt (width : Nat) (data : Array UInt8) (offset : Nat) : UInt64 :=
  (List.range width).foldr (fun i word => word <<< 8 ||| (data.getD (offset + i) 0).toUInt64) 0

/-- The word of four bytes at an offset. -/
def word32 : Array UInt8 → Nat → UInt64 :=
  wordAt 4

/-- The word of eight bytes at an offset. -/
def word64 : Array UInt8 → Nat → UInt64 :=
  wordAt 8

/-- The two halves of the full product, put together by exclusive or. -/
def foldProduct (a b : UInt64) : UInt64 :=
  let product := a.toNat * b.toNat
  UInt64.ofNat product ^^^ UInt64.ofNat (product >>> 64)

def rotate (word amount : UInt64) : UInt64 :=
  word <<< amount ||| word >>> (64 - amount)

/-- The bytes of a word in the opposite order. -/
def swapBytes (word : UInt64) : UInt64 :=
  (List.range 8).foldl
    (fun swapped i => swapped <<< 8 ||| (word >>> (UInt64.ofNat (8 * i)) &&& 0xFF)) 0

/-- The last mixing of short data. -/
def finishShort (word : UInt64) : UInt64 :=
  let word := (word ^^^ word >>> 33) * prime64B
  let word := (word ^^^ word >>> 29) * prime64C
  word ^^^ word >>> 32

/-- The last mixing of longer data. -/
def finish (word : UInt64) : UInt64 :=
  let word := (word ^^^ word >>> 37) * 0x165667919E3779F9
  word ^^^ word >>> 32

/-- Sixteen bytes of data mixed with sixteen bytes of the secret. -/
def mix (data : Array UInt8) (offset keyOffset : Nat) : UInt64 :=
  foldProduct (word64 data offset ^^^ word64 secret keyOffset)
    (word64 data (offset + 8) ^^^ word64 secret (keyOffset + 8))

def ofNothing : UInt64 :=
  finishShort (word64 secret 56 ^^^ word64 secret 64)

/-- The digest of one to three bytes. -/
def ofUpTo3 (data : Array UInt8) : UInt64 :=
  let byte (i : Nat) : UInt64 := (data.getD i 0).toUInt64
  let size := data.size
  let word :=
    byte 0 <<< 16 ||| byte (size / 2) <<< 24 ||| byte (size - 1) ||| UInt64.ofNat size <<< 8
  finishShort (word ^^^ (word32 secret 0 ^^^ word32 secret 4))

/-- The digest of four to eight bytes. -/
def ofUpTo8 (data : Array UInt8) : UInt64 :=
  let size := data.size
  let word := word32 data (size - 4) + word32 data 0 <<< 32
  let word := word ^^^ (word64 secret 8 ^^^ word64 secret 16)
  let word := (word ^^^ rotate word 49 ^^^ rotate word 24) * 0x9FB21C651E98DF25
  let word := (word ^^^ (word >>> 35 + UInt64.ofNat size)) * 0x9FB21C651E98DF25
  word ^^^ word >>> 28

/-- The digest of nine to sixteen bytes. -/
def ofUpTo16 (data : Array UInt8) : UInt64 :=
  let size := data.size
  let low := word64 data 0 ^^^ (word64 secret 24 ^^^ word64 secret 32)
  let high := word64 data (size - 8) ^^^ (word64 secret 40 ^^^ word64 secret 48)
  finish (UInt64.ofNat size + swapBytes low + high + foldProduct low high)

/-- The digest of 17 to 128 bytes: pairs of pieces from both ends. -/
def ofUpTo128 (data : Array UInt8) : UInt64 :=
  let size := data.size
  let pair (i : Nat) : UInt64 :=
    mix data (16 * i) (32 * i) + mix data (size - 16 * (i + 1)) (32 * i + 16)
  finish ((List.range ((size - 1) / 32 + 1)).foldl (fun sum i => sum + pair i)
    (UInt64.ofNat size * prime64A))

/-- The digest of 129 to 240 bytes. -/
def ofUpTo240 (data : Array UInt8) : UInt64 :=
  let size := data.size
  let first := (List.range 8).foldl (fun sum i => sum + mix data (16 * i) (16 * i))
    (UInt64.ofNat size * prime64A)
  let rest := (List.range (size / 16 - 8)).foldl
    (fun sum i => sum + mix data (16 * (i + 8)) (16 * i + 3)) (finish first)
  finish (rest + mix data (size - 16) 119)

def accumulators : List UInt64 :=
  [prime32C, prime64A, prime64B, prime64C, prime64D, prime32B, prime64E, prime32A]

/-- The eight words from an offset on. -/
def words (data : Array UInt8) (offset : Nat) : List UInt64 :=
  (List.range 8).map fun i => word64 data (offset + 8 * i)

/-- Neighbours exchanged in pairs. -/
def swapPairs : List UInt64 → List UInt64
  | a :: b :: rest => b :: a :: swapPairs rest
  | rest => rest

/-- The product of the two halves of a word. -/
def halfProduct (word : UInt64) : UInt64 :=
  (word &&& (0xFFFFFFFF : UInt64)) * (word >>> (32 : UInt64))

def absorb (data : Array UInt8) (offset keyOffset : Nat) (acc : List UInt64) : List UInt64 :=
  let stripe := words data offset
  let products := (List.zipWith (· ^^^ ·) stripe (words secret keyOffset)).map halfProduct
  List.zipWith (· + ·) acc (List.zipWith (· + ·) (swapPairs stripe) products)

/-- The accumulators after `count` stripes in a row. -/
def absorbAll (data : Array UInt8) (offset count : Nat) (acc : List UInt64) : List UInt64 :=
  (List.range count).foldl (fun acc i => absorb data (offset + 64 * i) (8 * i) acc) acc

/-- The accumulators stirred at the end of a block. -/
def scramble (acc : List UInt64) : List UInt64 :=
  let folded := acc.map fun (word : UInt64) => word ^^^ word >>> 47
  (List.zipWith (· ^^^ ·) folded (words secret 128)).map (· * prime32A)

/-- The sum of the accumulators, taken in pairs with the secret from an offset on. -/
def merge : Nat → List UInt64 → UInt64
  | keyOffset, a :: b :: rest =>
      foldProduct (a ^^^ word64 secret keyOffset) (b ^^^ word64 secret (keyOffset + 8)) +
        merge (keyOffset + 16) rest
  | _, _ => 0

/-- The digest of more than 240 bytes: blocks of sixteen stripes, the stripes of the last block, and
the last 64 bytes once more. -/
def ofLong (data : Array UInt8) : UInt64 :=
  let size := data.size
  let blocks := (size - 1) / 1024
  let acc := (List.range blocks).foldl
    (fun acc i => scramble (absorbAll data (1024 * i) 16 acc)) accumulators
  let acc := absorbAll data (1024 * blocks) ((size - 1 - 1024 * blocks) / 64) acc
  let acc := absorb data (size - 64) 121 acc
  finish (UInt64.ofNat size * prime64A + merge 11 acc)

def ofBytes (bytes : List UInt8) : UInt64 :=
  let data := bytes.toArray
  if data.size = 0 then ofNothing
  else if data.size ≤ 3 then ofUpTo3 data
  else if data.size ≤ 8 then ofUpTo8 data
  else if data.size ≤ 16 then ofUpTo16 data
  else if data.size ≤ 128 then ofUpTo128 data
  else if data.size ≤ 240 then ofUpTo240 data
  else ofLong data

end LogTemplate.Digest
