import Bulletin.Bytes

/-!
# The Blake3 digest

The unkeyed 32-byte digest of a byte string.

The input is cut into chunks of 1024 bytes, and a chunk into blocks of 64 bytes. Compressing a block
turns a chaining value of eight words into the next one; the last compression of a chunk gives the
chunk's own value. Values are joined two by two, level by level, an odd last one moving up as it is,
until one compression is left, whose output is the digest.

Everything here is structural recursion on lists or on a count taken from the input's length.
-/

namespace Bulletin.Digest.Blake3

/-- Eight words: the result of one compression, and what the next one starts from. -/
abbrev Chain := Vector UInt32 8

/-- Sixteen words: a message block, or the state that a compression works on. -/
abbrev Words := Vector UInt32 16

/-- The chaining value that every chunk and every join starts from. -/
def initial : Chain :=
  #v[0x6A09E667, 0xBB67AE85, 0x3C6EF372, 0xA54FF53A,
     0x510E527F, 0x9B05688C, 0x1F83D9AB, 0x5BE0CD19]

def chunkStart : UInt32 := 1

def chunkEnd : UInt32 := 2

def join : UInt32 := 4

def root : UInt32 := 8

def rotateRight (word count : UInt32) : UInt32 :=
  (word >>> count) ||| (word <<< (32 - count))

/-- Mixes two message words into four words of the state. -/
def mix (s : Words) (a b c d : Fin 16) (x y : UInt32) : Words :=
  let a1 := s[a] + s[b] + x
  let d1 := rotateRight (s[d] ^^^ a1) 16
  let c1 := s[c] + d1
  let b1 := rotateRight (s[b] ^^^ c1) 12
  let a2 := a1 + b1 + y
  let d2 := rotateRight (d1 ^^^ a2) 8
  let c2 := c1 + d2
  let b2 := rotateRight (b1 ^^^ c2) 7
  (((s.set a a2).set b b2).set c c2).set d d2

/-- One round: the columns of the state, then its diagonals. -/
def round (s m : Words) : Words :=
  let s := mix s 0 4 8 12 m[0] m[1]
  let s := mix s 1 5 9 13 m[2] m[3]
  let s := mix s 2 6 10 14 m[4] m[5]
  let s := mix s 3 7 11 15 m[6] m[7]
  let s := mix s 0 5 10 15 m[8] m[9]
  let s := mix s 1 6 11 12 m[10] m[11]
  let s := mix s 2 7 8 13 m[12] m[13]
  mix s 3 4 9 14 m[14] m[15]

/-- The order in which the next round takes the message words. -/
def permute (m : Words) : Words :=
  #v[m[2], m[6], m[3], m[10], m[7], m[0], m[4], m[13],
     m[1], m[11], m[12], m[5], m[9], m[14], m[15], m[8]]

def rounds : Nat → Words → Words → Words
  | 0, s, _ => s
  | count + 1, s, m => rounds count (round s m) (permute m)

/-- A compression that is still to be made: its chaining value, message, position, length and marks. -/
structure Node where
  chain : Chain
  block : Words
  counter : Nat
  length : Nat
  marks : UInt32

def Node.compress (node : Node) : Chain :=
  let h := node.chain
  -- The second half of the state: constants, the position in two words, the length and the marks.
  let start : Words :=
    #v[h[0], h[1], h[2], h[3], h[4], h[5], h[6], h[7],
       initial[0], initial[1], initial[2], initial[3],
       UInt32.ofNat node.counter, UInt32.ofNat (node.counter / UInt32.size),
       UInt32.ofNat node.length, node.marks]
  let s := rounds 7 start node.block
  #v[s[0] ^^^ s[8], s[1] ^^^ s[9], s[2] ^^^ s[10], s[3] ^^^ s[11],
     s[4] ^^^ s[12], s[5] ^^^ s[13], s[6] ^^^ s[14], s[7] ^^^ s[15]]

/-- The word whose bytes, least significant first, are the first four of a list. -/
def littleEndian (bytes : Bytes) : UInt32 :=
  (bytes.take 4).foldr (fun b word => word * 256 + b.toUInt32) 0

/-- The four bytes of a word, least significant first. -/
def wordBytes (word : UInt32) : Bytes :=
  [word.toUInt8, (word >>> 8).toUInt8, (word >>> 16).toUInt8, (word >>> 24).toUInt8]

/-- The message words of at most 64 bytes, zeros filling up. -/
def blockWords (bytes : Bytes) : Words :=
  Vector.ofFn fun i => littleEndian (bytes.drop (4 * i.val))

/-- The first `count` pieces of `size` bytes. -/
def pieces (size : Nat) : Nat → Bytes → List Bytes
  | 0, _ => []
  | count + 1, bytes => bytes.take size :: pieces size count (bytes.drop size)

/-- The input in pieces of `size` bytes: the last one may be shorter, and there is at least one. -/
def cut (size : Nat) (bytes : Bytes) : List Bytes :=
  pieces size (max 1 ((bytes.length + size - 1) / size)) bytes

/-- The last compression of a chunk, the earlier ones having been made. -/
def blocksNode (counter : Nat) (chain : Chain) (marks : UInt32) : List Bytes → Node
  | [] => ⟨chain, blockWords [], counter, 0, marks ||| chunkEnd⟩
  | [last] => ⟨chain, blockWords last, counter, last.length, marks ||| chunkEnd⟩
  | block :: next :: rest =>
    let node : Node := ⟨chain, blockWords block, counter, block.length, marks⟩
    blocksNode counter node.compress 0 (next :: rest)

def chunkNode (counter : Nat) (bytes : Bytes) : Node :=
  blocksNode counter initial chunkStart (cut 64 bytes)

def joinNode (left right : Chain) : Node :=
  ⟨initial, left ++ right, 0, 64, join⟩

/-- One level up: neighbours joined two by two, an odd last one kept. -/
def level : List Node → List Node
  | left :: right :: rest => joinNode left.compress right.compress :: level rest
  | nodes => nodes

/-- Level after level until one compression is left; each level at least halves a longer list. -/
def top : Nat → List Node → List Node
  | 0, nodes => nodes
  | fuel + 1, nodes => if nodes.length ≤ 1 then nodes else top fuel (level nodes)

/-- The compressions that close the chunks of the input, in order. -/
def chunkNodes (input : Bytes) : List Node :=
  (cut 1024 input).zipIdx.map fun (bytes, i) => chunkNode i bytes

def rootNode (input : Bytes) : Node :=
  let chunks := chunkNodes input
  -- There is always a chunk, so the default is never taken.
  let node := (top chunks.length chunks).headD (chunkNode 0 [])
  { node with marks := node.marks ||| root }

def hash (input : Bytes) : Bytes :=
  (rootNode input).compress.toList.flatMap wordBytes

theorem length_hash (input : Bytes) : (hash input).length = 32 := by
  have words : (rootNode input).compress.toList.length = 8 := Vector.length_toList
  simp [hash, List.length_flatMap, wordBytes, List.map_const', words]

end Bulletin.Digest.Blake3
