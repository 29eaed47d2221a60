import Staging.Bytes.Word

/-!
The BLAKE3 hash with its default output of 32 bytes. A message is a binary tree of chunks of 1024
bytes; the state of a compression is four rows of four words, and a round mixes the columns and
then the diagonals, which are the columns after the rows have been turned against each other.
-/
namespace Staging.Blake3

/-- Four words of a state or of a message block. -/
structure Row where
  a : UInt32
  b : UInt32
  c : UInt32
  d : UInt32

namespace Row

def zip (f : UInt32 → UInt32 → UInt32) (x y : Row) : Row :=
  ⟨f x.a y.a, f x.b y.b, f x.c y.c, f x.d y.d⟩

def map (f : UInt32 → UInt32) (x : Row) : Row := ⟨f x.a, f x.b, f x.c, f x.d⟩

def add : Row → Row → Row := zip (· + ·)

def xor : Row → Row → Row := zip (· ^^^ ·)

def rotate (n : UInt32) : Row → Row := map fun w => (w >>> n) ||| (w <<< (32 - n))

/-- The row with its words moved one place towards the front. -/
def turn (x : Row) : Row := ⟨x.b, x.c, x.d, x.a⟩

def toBytes (x : Row) : Bytes :=
  [x.a, x.b, x.c, x.d].flatMap fun w => Bytes.littleEndian 4 w.toNat

/-- The row in the first sixteen bytes; bytes that are missing count as zero. -/
def ofBytes (bs : Bytes) : Row :=
  let word (i : Nat) : UInt32 := UInt32.ofNat (Bytes.ofLittleEndian ((bs.drop (4 * i)).take 4))
  ⟨word 0, word 1, word 2, word 3⟩

end Row

structure State where
  a : Row
  b : Row
  c : Row
  d : Row

/-- The mixing function on all four columns at once. -/
def State.mix (s : State) (x y : Row) : State :=
  let a := (s.a.add s.b).add x
  let d := (s.d.xor a).rotate 16
  let c := s.c.add d
  let b := (s.b.xor c).rotate 12
  let a := (a.add b).add y
  let d := (d.xor a).rotate 8
  let c := c.add d
  let b := (b.xor c).rotate 7
  ⟨a, b, c, d⟩

/-- Turns the diagonals into columns. -/
def State.skew (s : State) : State := ⟨s.a, s.b.turn, s.c.turn.turn, s.d.turn.turn.turn⟩

def State.unskew (s : State) : State := ⟨s.a, s.b.turn.turn.turn, s.c.turn.turn, s.d.turn⟩

/-- Sixteen message words. -/
structure Block where
  p : Row
  q : Row
  r : Row
  s : Row

namespace Block

def ofBytes (bs : Bytes) : Block :=
  ⟨.ofBytes bs, .ofBytes (bs.drop 16), .ofBytes (bs.drop 32), .ofBytes (bs.drop 48)⟩

/-- The order in which the next round takes the words. -/
def permute (m : Block) : Block :=
  ⟨⟨m.p.c, m.q.c, m.p.d, m.r.c⟩, ⟨m.q.d, m.p.a, m.q.a, m.s.b⟩,
    ⟨m.p.b, m.r.d, m.s.a, m.q.b⟩, ⟨m.r.b, m.s.c, m.s.d, m.r.a⟩⟩

end Block

def round (s : State) (m : Block) : State :=
  let columns := s.mix ⟨m.p.a, m.p.c, m.q.a, m.q.c⟩ ⟨m.p.b, m.p.d, m.q.b, m.q.d⟩
  (columns.skew.mix ⟨m.r.a, m.r.c, m.s.a, m.s.c⟩ ⟨m.r.b, m.r.d, m.s.b, m.s.d⟩).unskew

def rounds : Nat → State → Block → State
  | 0, s, _ => s
  | n + 1, s, m => rounds n (round s m) m.permute

/-- Eight words that stand for everything hashed below a place of the tree. -/
structure Chaining where
  low : Row
  high : Row

def initial : Chaining :=
  ⟨⟨0x6a09e667, 0xbb67ae85, 0x3c6ef372, 0xa54ff53a⟩,
    ⟨0x510e527f, 0x9b05688c, 0x1f83d9ab, 0x5be0cd19⟩⟩

def chunkStart : UInt32 := 1
def chunkEnd : UInt32 := 2
def parent : UInt32 := 4
def root : UInt32 := 8

/-- A compression that has all its inputs but has not been told whether it is the root. -/
structure Node where
  chaining : Chaining
  block : Block
  counter : Nat
  length : Nat
  flags : UInt32

def Node.output (n : Node) (extra : UInt32) : Chaining :=
  let s : State := ⟨n.chaining.low, n.chaining.high, initial.low,
    ⟨UInt32.ofNat n.counter, UInt32.ofNat (n.counter >>> 32), UInt32.ofNat n.length,
      n.flags ||| extra⟩⟩
  let t := rounds 7 s n.block
  ⟨t.a.xor t.c, t.b.xor t.d⟩

/-- The last block of a chunk, after the blocks before it have been folded into `chaining`. -/
def chunkFrom (counter : Nat) (chaining : Chaining) (flags : UInt32) (bs : Bytes) : Node :=
  if bs.length ≤ 64 then
    ⟨chaining, .ofBytes bs, counter, bs.length, flags ||| chunkEnd⟩
  else
    let block : Node := ⟨chaining, .ofBytes (bs.take 64), counter, 64, flags⟩
    chunkFrom counter (block.output 0) 0 (bs.drop 64)
termination_by bs.length
decreasing_by simp; omega

def chunk (counter : Nat) (bs : Bytes) : Node := chunkFrom counter initial chunkStart bs

def Node.join (left right : Node) : Node :=
  let l := left.output 0
  let r := right.output 0
  ⟨initial, ⟨l.low, l.high, r.low, r.high⟩, 0, 64, parent⟩

/-- The bytes that go to the left: the largest power of two of chunks that leaves some for the
right. -/
def leftLength (size : Nat) : Nat := 1024 <<< ((size - 1) / 1024).log2

theorem leftLength_lt {size : Nat} (large : 1024 < size) : leftLength size < size := by
  have positive : (size - 1) / 1024 ≠ 0 := by omega
  have := Nat.log2_self_le positive
  rw [leftLength, Nat.shiftLeft_eq]
  omega

theorem leftLength_pos (size : Nat) : 0 < leftLength size := by
  have : 0 < 2 ^ ((size - 1) / 1024).log2 := Nat.two_pow_pos _
  rw [leftLength, Nat.shiftLeft_eq]
  omega

/-- The tree over a stretch of the message whose first chunk has the number `counter`. -/
def tree (counter : Nat) (bs : Bytes) : Node :=
  if h : bs.length ≤ 1024 then chunk counter bs
  else
    let left := leftLength bs.length
    (tree counter (bs.take left)).join (tree (counter + left / 1024) (bs.drop left))
termination_by bs.length
decreasing_by
  · have : leftLength bs.length < bs.length := leftLength_lt (by omega)
    simp; omega
  · have := leftLength_pos bs.length
    simp; omega

def hash (bs : Bytes) : Bytes :=
  let out := (tree 0 bs).output root
  out.low.toBytes ++ out.high.toBytes

theorem Row.toBytes_length (x : Row) : x.toBytes.length = 16 := by
  simp [Row.toBytes]

@[simp] theorem hash_length (bs : Bytes) : (hash bs).length = 32 := by
  simp [hash, Row.toBytes_length]

end Staging.Blake3
