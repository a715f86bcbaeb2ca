import Mathlib.Tactic.Common
import Relay.Lib.Digits

/-!
# SHA-256 and keyed hashing

The hash of a list of bytes as the standard describes it: padding to blocks of
sixteen words, a schedule of sixty-four words for each, as many rounds. Keyed
hashing is stated for any hash of a given block size.
-/

namespace Sha256

abbrev Word := BitVec 32

/-- The first 32 bits of the fractional parts of the cube roots of the primes. -/
def constants : List Word :=
  [0x428a2f98, 0x71374491, 0xb5c0fbcf, 0xe9b5dba5, 0x3956c25b, 0x59f111f1, 0x923f82a4,
    0xab1c5ed5, 0xd807aa98, 0x12835b01, 0x243185be, 0x550c7dc3, 0x72be5d74, 0x80deb1fe,
    0x9bdc06a7, 0xc19bf174, 0xe49b69c1, 0xefbe4786, 0x0fc19dc6, 0x240ca1cc, 0x2de92c6f,
    0x4a7484aa, 0x5cb0a9dc, 0x76f988da, 0x983e5152, 0xa831c66d, 0xb00327c8, 0xbf597fc7,
    0xc6e00bf3, 0xd5a79147, 0x06ca6351, 0x14292967, 0x27b70a85, 0x2e1b2138, 0x4d2c6dfc,
    0x53380d13, 0x650a7354, 0x766a0abb, 0x81c2c92e, 0x92722c85, 0xa2bfe8a1, 0xa81a664b,
    0xc24b8b70, 0xc76c51a3, 0xd192e819, 0xd6990624, 0xf40e3585, 0x106aa070, 0x19a4c116,
    0x1e376c08, 0x2748774c, 0x34b0bcb5, 0x391c0cb3, 0x4ed8aa4a, 0x5b9cca4f, 0x682e6ff3,
    0x748f82ee, 0x78a5636f, 0x84c87814, 0x8cc70208, 0x90befffa, 0xa4506ceb, 0xbef9a3f7,
    0xc67178f2]

/-- The working variables, which are also the intermediate hash. -/
structure Working where
  a : Word
  b : Word
  c : Word
  d : Word
  e : Word
  f : Word
  g : Word
  h : Word
  deriving DecidableEq

/-- The same of the square roots. -/
def initial : Working where
  a := 0x6a09e667
  b := 0xbb67ae85
  c := 0x3c6ef372
  d := 0xa54ff53a
  e := 0x510e527f
  f := 0x9b05688c
  g := 0x1f83d9ab
  h := 0x5be0cd19

def bigSigma0 (x : Word) : Word := x.rotateRight 2 ^^^ x.rotateRight 13 ^^^ x.rotateRight 22
def bigSigma1 (x : Word) : Word := x.rotateRight 6 ^^^ x.rotateRight 11 ^^^ x.rotateRight 25
def smallSigma0 (x : Word) : Word := x.rotateRight 7 ^^^ x.rotateRight 18 ^^^ x >>> 3
def smallSigma1 (x : Word) : Word := x.rotateRight 17 ^^^ x.rotateRight 19 ^^^ x >>> 10
def choice (x y z : Word) : Word := (x &&& y) ^^^ (~~~x &&& z)
def majority (x y z : Word) : Word := (x &&& y) ^^^ (x &&& z) ^^^ (y &&& z)

/-- More words of the schedule; the latest comes first. -/
def extend : Nat → List Word → List Word
  | 0, words => words
  | n + 1, words =>
    extend n ((smallSigma1 (words.getD 1 0) + words.getD 6 0 + smallSigma0 (words.getD 14 0) +
      words.getD 15 0) :: words)

def schedule (block : List Word) : List Word := (extend 48 block.reverse).reverse

def round (v : Working) (k w : Word) : Working :=
  let t := v.h + bigSigma1 v.e + choice v.e v.f v.g + k + w
  ⟨t + bigSigma0 v.a + majority v.a v.b v.c, v.a, v.b, v.c, v.d + t, v.e, v.f, v.g⟩

def rounds : Working → List Word → List Word → Working
  | v, k :: ks, w :: ws => rounds (round v k w) ks ws
  | v, _, _ => v

def compress (v : Working) (block : List Word) : Working :=
  let u := rounds v constants (schedule block)
  ⟨v.a + u.a, v.b + u.b, v.c + u.c, v.d + u.d, v.e + u.e, v.f + u.f, v.g + u.g, v.h + u.h⟩

/-- Four bytes a word, most significant first. -/
def words : List UInt8 → List Word
  | a :: b :: c :: d :: rest =>
    BitVec.ofNat 32 (Digits.value 256 [a.toNat, b.toNat, c.toNat, d.toNat]) :: words rest
  | _ => []

def blocks : Nat → Working → List Word → Working
  | 0, v, _ => v
  | n + 1, v, ws => blocks n (compress v (ws.take 16)) (ws.drop 16)

/-- One bit, zeros, and the length in bits as the last eight bytes of a block. -/
def padding (message : List UInt8) : List UInt8 :=
  message ++ 0x80 :: List.replicate ((119 - message.length % 64) % 64) 0 ++
    (Digits.digits 256 8 (8 * message.length)).map UInt8.ofNat

def wordBytes (w : Word) : List UInt8 := (Digits.digits 256 4 w.toNat).map UInt8.ofNat

def bytes (v : Working) : List UInt8 :=
  [v.a, v.b, v.c, v.d, v.e, v.f, v.g, v.h].flatMap wordBytes

def sha256 (message : List UInt8) : List UInt8 :=
  let padded := padding message
  bytes (blocks (padded.length / 64) initial (words padded))

/-- The letters a, b and c. -/
example : (sha256 [0x61, 0x62, 0x63]).map UInt8.toNat =
    [0xba, 0x78, 0x16, 0xbf, 0x8f, 0x01, 0xcf, 0xea, 0x41, 0x41, 0x40, 0xde, 0x5d, 0xae, 0x22, 0x23,
      0xb0, 0x03, 0x61, 0xa3, 0x96, 0x17, 0x7a, 0x9c, 0xb4, 0x10, 0xff, 0x61, 0xf2, 0x00, 0x15,
      0xad] := by
  decide +kernel

end Sha256

/-- Keyed hashing with a hash of the given block size. -/
def hmac (hash : List UInt8 → List UInt8) (blockSize : Nat) (key message : List UInt8) :
    List UInt8 :=
  let short := if blockSize < key.length then hash key else key
  let padded := short ++ List.replicate (blockSize - short.length) 0
  hash (padded.map (fun b => b ^^^ 0x5c) ++ hash (padded.map (fun b => b ^^^ 0x36) ++ message))
