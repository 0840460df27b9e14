/-! # A 64-bit digest of bytes

The digest of the XXH64 specification with seed zero. Bytes are taken eight at a time as
little-endian words; four words at a time go through four independent lanes, and what is
left over is mixed in one word, one half word and one byte at a time.
-/

namespace PagedServing.Digest

/-- The five odd constants of the mixing steps. -/
def prime1 : UInt64 := 0x9E3779B185EBCA87

/-- The second constant. -/
def prime2 : UInt64 := 0xC2B2AE3D27D4EB4F

/-- The third constant. -/
def prime3 : UInt64 := 0x165667B19E3779F9

/-- The fourth constant. -/
def prime4 : UInt64 := 0x85EBCA77C2B2AE63

/-- The fifth constant. -/
def prime5 : UInt64 := 0x27D4EB2F165667C5

/-- Turn a word left by `n` bits. -/
def rotate (x : UInt64) (n : UInt64) : UInt64 :=
  (x <<< n) ||| (x >>> (64 - n))

/-- The number that bytes spell, the lowest first. -/
def littleEndian (bytes : List UInt8) : UInt64 :=
  bytes.foldr (fun b acc => (acc <<< 8) ||| b.toUInt64) 0

/-- Cut bytes into words of eight and the fewer than eight that are left. -/
def words : List UInt8 → List UInt64 × List UInt8
  | a :: b :: c :: d :: e :: f :: g :: h :: rest =>
    let (ws, left) := words rest
    (littleEndian [a, b, c, d, e, f, g, h] :: ws, left)
  | few => ([], few)

/-- Mix a word into a lane. -/
def mixLane (lane word : UInt64) : UInt64 :=
  rotate (lane + word * prime2) 31 * prime1

/-- The four lanes. -/
structure Lanes where
  first : UInt64
  second : UInt64
  third : UInt64
  fourth : UInt64

/-- The lanes before any word. -/
def Lanes.start : Lanes :=
  ⟨prime1 + prime2, prime2, 0, 0 - prime1⟩

/-- Send words through the lanes four at a time, and return the fewer than four left. -/
def Lanes.absorb (l : Lanes) : List UInt64 → Lanes × List UInt64
  | a :: b :: c :: d :: rest =>
    absorb ⟨mixLane l.first a, mixLane l.second b, mixLane l.third c, mixLane l.fourth d⟩ rest
  | few => (l, few)

/-- Fold one lane into the digest. -/
def mergeLane (acc lane : UInt64) : UInt64 :=
  (acc ^^^ mixLane 0 lane) * prime1 + prime4

/-- Join the four lanes. -/
def Lanes.join (l : Lanes) : UInt64 :=
  let sum := rotate l.first 1 + rotate l.second 7 + rotate l.third 12 + rotate l.fourth 18
  mergeLane (mergeLane (mergeLane (mergeLane sum l.first) l.second) l.third) l.fourth

/-- Mix in one left-over word. -/
def mixWord (acc word : UInt64) : UInt64 :=
  rotate (acc ^^^ mixLane 0 word) 27 * prime1 + prime4

/-- Mix in one left-over byte. -/
def mixByte (acc : UInt64) (byte : UInt8) : UInt64 :=
  rotate (acc ^^^ byte.toUInt64 * prime5) 11 * prime1

/-- Mix in the fewer than eight left-over bytes, four of them at once if there are. -/
def mixBytes (acc : UInt64) : List UInt8 → UInt64
  | a :: b :: c :: d :: rest =>
    let half := littleEndian [a, b, c, d]
    rest.foldl mixByte (rotate (acc ^^^ half * prime1) 23 * prime2 + prime3)
  | few => few.foldl mixByte acc

/-- Spread every bit over the whole word. -/
def avalanche (x : UInt64) : UInt64 :=
  let x := (x ^^^ (x >>> 33)) * prime2
  let x := (x ^^^ (x >>> 29)) * prime3
  x ^^^ (x >>> 32)

/-- The digest of a list of bytes. -/
def xxh64 (bytes : List UInt8) : UInt64 :=
  let (ws, left) := words bytes
  let (acc, few) :=
    if bytes.length < 32 then (prime5, ws)
    else
      let (lanes, few) := Lanes.start.absorb ws
      (lanes.join, few)
  avalanche (mixBytes (few.foldl mixWord (acc + UInt64.ofNat bytes.length)) left)

/-- The lowest `count` bytes of the two's complement of a whole number, lowest first. -/
def bytesOf (count : Nat) (n : Int) : List UInt8 :=
  (List.range count).map fun i => UInt8.ofNat ((n.fdiv (Nat.pow 256 i)).emod 256).toNat

end PagedServing.Digest
