import FlowEngine.Power

/-!
# Digests

The hash functions MD5, SHA-1 and SHA-2. All of them fill the message up to whole blocks and let a
compression function absorb one block after the other.
-/
namespace FlowEngine.Digest

def littleEndian (width n : Nat) : List UInt8 :=
  (List.range width).map (fun i => UInt8.ofNat (n / 256 ^ i % 256))

def bigEndian (width n : Nat) : List UInt8 := (littleEndian width n).reverse

def ofBigEndian (bytes : List UInt8) : Nat := bytes.foldl (fun n b => 256 * n + b.toNat) 0

/-- The message with a one bit, zeros and its length in bits, which takes the last `tail` bytes. -/
def fillUp (block tail : Nat) (lengthBytes : Nat → List UInt8) (message : List UInt8) : List UInt8 :=
  let n := message.length
  let zeros := (block - (n + 1 + tail) % block) % block
  message ++ 0x80 :: List.replicate zeros 0 ++ lengthBytes (8 * n)

def pieces (size : Nat) (bytes : List UInt8) : List (List UInt8) :=
  (List.range (bytes.length / size)).map (fun i => (bytes.drop (i * size)).take size)

def hexText (bytes : List UInt8) : String :=
  String.ofList (bytes.flatMap (fun b =>
    [Nat.digitChar (b.toNat / 16), Nat.digitChar (b.toNat % 16)]))

def rotateLeft (x : UInt32) (n : UInt32) : UInt32 := (x <<< n) ||| (x >>> (32 - n))

def rotateRight (x : UInt32) (n : UInt32) : UInt32 := (x >>> n) ||| (x <<< (32 - n))

def rotateRight64 (x : UInt64) (n : UInt64) : UInt64 := (x >>> n) ||| (x <<< (64 - n))

/-- The greatest number whose square is at most `n`, by bisection between two bounds. -/
def rootBetween (power n : Nat) : Nat → Nat → Nat → Nat
  | 0, lo, _ => lo
  | steps + 1, lo, hi =>
    let mid := (lo + hi) / 2
    if mid ^ power ≤ n then rootBetween power n steps mid hi else rootBetween power n steps lo mid

/-- The first `bits` bits of the fractional part of a prime's root. -/
def rootFraction (power bits p : Nat) : Nat :=
  rootBetween power (p * 2 ^ (power * bits)) (bits + 8) 0 (2 ^ (bits + 6)) % 2 ^ bits

def primes : List Nat :=
  (List.range 410).filter (fun n => 2 ≤ n && (List.range n).all (fun d => d < 2 || n % d != 0))

namespace MD5

def shifts : List UInt32 :=
  (List.replicate 4 [7, 12, 17, 22]).flatten ++ (List.replicate 4 [5, 9, 14, 20]).flatten ++
    (List.replicate 4 [4, 11, 16, 23]).flatten ++ (List.replicate 4 [6, 10, 15, 21]).flatten

/-- The constants: the sines of the whole numbers, scaled to 32 bits. -/
def constants : List UInt32 :=
  [0xd76aa478, 0xe8c7b756, 0x242070db, 0xc1bdceee, 0xf57c0faf, 0x4787c62a, 0xa8304613, 0xfd469501,
    0x698098d8, 0x8b44f7af, 0xffff5bb1, 0x895cd7be, 0x6b901122, 0xfd987193, 0xa679438e, 0x49b40821,
    0xf61e2562, 0xc040b340, 0x265e5a51, 0xe9b6c7aa, 0xd62f105d, 0x02441453, 0xd8a1e681, 0xe7d3fbc8,
    0x21e1cde6, 0xc33707d6, 0xf4d50d87, 0x455a14ed, 0xa9e3e905, 0xfcefa3f8, 0x676f02d9, 0x8d2a4c8a,
    0xfffa3942, 0x8771f681, 0x6d9d6122, 0xfde5380c, 0xa4beea44, 0x4bdecfa9, 0xf6bb4b60, 0xbebfbc70,
    0x289b7ec6, 0xeaa127fa, 0xd4ef3085, 0x04881d05, 0xd9d4d039, 0xe6db99e5, 0x1fa27cf8, 0xc4ac5665,
    0xf4292244, 0x432aff97, 0xab9423a7, 0xfc93a039, 0x655b59c3, 0x8f0ccc92, 0xffeff47d, 0x85845dd1,
    0x6fa87e4f, 0xfe2ce6e0, 0xa3014314, 0x4e0811a1, 0xf7537e82, 0xbd3af235, 0x2ad7d2bb, 0xeb86d391]

structure State where
  a : UInt32
  b : UInt32
  c : UInt32
  d : UInt32

def start : State := ⟨0x67452301, 0xefcdab89, 0x98badcfe, 0x10325476⟩

def step (words : Array UInt32) (s : State) (i : Nat × UInt32 × UInt32) : State :=
  let (i, shift, constant) := i
  let (mix, g) :=
    if i < 16 then ((s.b &&& s.c) ||| (~~~s.b &&& s.d), i)
    else if i < 32 then ((s.d &&& s.b) ||| (~~~s.d &&& s.c), (5 * i + 1) % 16)
    else if i < 48 then (s.b ^^^ s.c ^^^ s.d, (3 * i + 5) % 16)
    else (s.c ^^^ (s.b ||| ~~~s.d), (7 * i) % 16)
  let f := mix + s.a + constant + words.getD g 0
  ⟨s.d, s.b + rotateLeft f shift, s.b, s.c⟩

def absorb (s : State) (block : List UInt8) : State :=
  let words := ((pieces 4 block).map (fun bytes => UInt32.ofNat (ofBigEndian bytes.reverse))).toArray
  let t := ((List.range 64).zip (shifts.zip constants)).foldl (step words) s
  ⟨s.a + t.a, s.b + t.b, s.c + t.c, s.d + t.d⟩

def digest (message : List UInt8) : List UInt8 :=
  let s := (pieces 64 (fillUp 64 8 (littleEndian 8) message)).foldl absorb start
  [s.a, s.b, s.c, s.d].flatMap (fun w => littleEndian 4 w.toNat)

end MD5

namespace SHA1

/-- The word that enters a step: of the block at first, later a mix of earlier ones. -/
def schedule (block : List UInt8) : Array UInt32 :=
  let words := ((pieces 4 block).map (fun bytes => UInt32.ofNat (ofBigEndian bytes))).toArray
  (List.range 64).foldl (fun w _ =>
    let i := w.size
    w.push (rotateLeft
      (w.getD (i - 3) 0 ^^^ w.getD (i - 8) 0 ^^^ w.getD (i - 14) 0 ^^^ w.getD (i - 16) 0) 1)) words

def step (s : List UInt32) (i : Nat × UInt32) : List UInt32 :=
  match s with
  | [a, b, c, d, e] =>
    let (mix, constant) : UInt32 × UInt32 :=
      if i.1 < 20 then ((b &&& c) ||| (~~~b &&& d), 0x5a827999)
      else if i.1 < 40 then (b ^^^ c ^^^ d, 0x6ed9eba1)
      else if i.1 < 60 then ((b &&& c) ||| (b &&& d) ||| (c &&& d), 0x8f1bbcdc)
      else (b ^^^ c ^^^ d, 0xca62c1d6)
    [rotateLeft a 5 + mix + e + constant + i.2, a, rotateLeft b 30, c, d]
  | s => s

def absorb (s : List UInt32) (block : List UInt8) : List UInt32 :=
  List.zipWith (· + ·) s (((List.range 80).zip (schedule block).toList).foldl step s)

def digest (message : List UInt8) : List UInt8 :=
  let start := [0x67452301, 0xefcdab89, 0x98badcfe, 0x10325476, 0xc3d2e1f0]
  let s := (pieces 64 (fillUp 64 8 (bigEndian 8) message)).foldl absorb start
  s.flatMap (fun w => bigEndian 4 w.toNat)

end SHA1

namespace SHA256

def constants : List UInt32 := (primes.take 64).map (fun p => UInt32.ofNat (rootFraction 3 32 p))

def start : List UInt32 := (primes.take 8).map (fun p => UInt32.ofNat (rootFraction 2 32 p))

def schedule (block : List UInt8) : Array UInt32 :=
  let words := ((pieces 4 block).map (fun bytes => UInt32.ofNat (ofBigEndian bytes))).toArray
  (List.range 48).foldl (fun w _ =>
    let i := w.size
    let x := w.getD (i - 15) 0
    let y := w.getD (i - 2) 0
    let s0 := rotateRight x 7 ^^^ rotateRight x 18 ^^^ (x >>> 3)
    let s1 := rotateRight y 17 ^^^ rotateRight y 19 ^^^ (y >>> 10)
    w.push (w.getD (i - 16) 0 + s0 + w.getD (i - 7) 0 + s1)) words

def step (s : List UInt32) (i : UInt32 × UInt32) : List UInt32 :=
  match s with
  | [a, b, c, d, e, f, g, h] =>
    let s1 := rotateRight e 6 ^^^ rotateRight e 11 ^^^ rotateRight e 25
    let t1 := h + s1 + ((e &&& f) ^^^ (~~~e &&& g)) + i.1 + i.2
    let s0 := rotateRight a 2 ^^^ rotateRight a 13 ^^^ rotateRight a 22
    let t2 := s0 + ((a &&& b) ^^^ (a &&& c) ^^^ (b &&& c))
    [t1 + t2, a, b, c, d + t1, e, f, g]
  | s => s

def absorb (s : List UInt32) (block : List UInt8) : List UInt32 :=
  List.zipWith (· + ·) s ((constants.zip (schedule block).toList).foldl step s)

def digest (message : List UInt8) : List UInt8 :=
  let s := (pieces 64 (fillUp 64 8 (bigEndian 8) message)).foldl absorb start
  s.flatMap (fun w => bigEndian 4 w.toNat)

end SHA256

namespace SHA512

def constants : List UInt64 := (primes.take 80).map (fun p => UInt64.ofNat (rootFraction 3 64 p))

def start : List UInt64 := (primes.take 8).map (fun p => UInt64.ofNat (rootFraction 2 64 p))

def shortStart : List UInt64 :=
  ((primes.drop 8).take 8).map (fun p => UInt64.ofNat (rootFraction 2 64 p))

def schedule (block : List UInt8) : Array UInt64 :=
  let words := ((pieces 8 block).map (fun bytes => UInt64.ofNat (ofBigEndian bytes))).toArray
  (List.range 64).foldl (fun w _ =>
    let i := w.size
    let x := w.getD (i - 15) 0
    let y := w.getD (i - 2) 0
    let s0 := rotateRight64 x 1 ^^^ rotateRight64 x 8 ^^^ (x >>> 7)
    let s1 := rotateRight64 y 19 ^^^ rotateRight64 y 61 ^^^ (y >>> 6)
    w.push (w.getD (i - 16) 0 + s0 + w.getD (i - 7) 0 + s1)) words

def step (s : List UInt64) (i : UInt64 × UInt64) : List UInt64 :=
  match s with
  | [a, b, c, d, e, f, g, h] =>
    let s1 := rotateRight64 e 14 ^^^ rotateRight64 e 18 ^^^ rotateRight64 e 41
    let t1 := h + s1 + ((e &&& f) ^^^ (~~~e &&& g)) + i.1 + i.2
    let s0 := rotateRight64 a 28 ^^^ rotateRight64 a 34 ^^^ rotateRight64 a 39
    let t2 := s0 + ((a &&& b) ^^^ (a &&& c) ^^^ (b &&& c))
    [t1 + t2, a, b, c, d + t1, e, f, g]
  | s => s

def absorb (s : List UInt64) (block : List UInt8) : List UInt64 :=
  List.zipWith (· + ·) s ((constants.zip (schedule block).toList).foldl step s)

/-- The state after the whole message, as bytes. -/
def digestFrom (start : List UInt64) (message : List UInt8) : List UInt8 :=
  let s := (pieces 128 (fillUp 128 16 (bigEndian 16) message)).foldl absorb start
  s.flatMap (fun w => bigEndian 8 w.toNat)

end SHA512

inductive Algorithm where
  | md5
  | sha1
  | sha256
  | sha384
  | sha512
deriving DecidableEq, Repr

def Algorithm.ofName? : String → Option Algorithm
  | "md5" => some md5
  | "sha1" => some sha1
  | "sha256" => some sha256
  | "sha384" => some sha384
  | "sha512" => some sha512
  | _ => none

def digest (algorithm : Algorithm) (text : String) : String :=
  let message := text.toUTF8.toList
  hexText (match algorithm with
    | .md5 => MD5.digest message
    | .sha1 => SHA1.digest message
    | .sha256 => SHA256.digest message
    | .sha384 => (SHA512.digestFrom SHA512.shortStart message).take 48
    | .sha512 => SHA512.digestFrom SHA512.start message)

end FlowEngine.Digest
