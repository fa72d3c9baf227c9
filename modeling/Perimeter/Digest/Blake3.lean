/-!
The BLAKE3 hash of a byte string. The input is cut into chunks of 1024 bytes,
each chunk into blocks of 64. Compressing the blocks of a chunk one after the
other gives its chaining value; chaining values are joined in pairs up a binary
tree whose left branches are complete, and the last compression, marked as the
root, gives the hash.
-/

namespace Perimeter.Blake3

/-- Eight words that carry the state from one compression to the next. -/
abbrev Chaining := Vector UInt32 8

abbrev Block := Vector UInt32 16

def initial : Chaining :=
  #v[0x6A09E667, 0xBB67AE85, 0x3C6EF372, 0xA54FF53A,
     0x510E527F, 0x9B05688C, 0x1F83D9AB, 0x5BE0CD19]

/-- Where each word of a block goes between two rounds. -/
def schedule : Vector (Fin 16) 16 :=
  #v[2, 6, 3, 10, 7, 0, 4, 13, 1, 11, 12, 5, 9, 14, 15, 8]

def chunkStart : UInt32 := 1

def chunkEnd : UInt32 := 2

def parent : UInt32 := 4

def root : UInt32 := 8

def rotateRight (w n : UInt32) : UInt32 := (w >>> n) ||| (w <<< (32 - n))

/-- Mixes two message words into one column or diagonal of the state. -/
def mix (v : Block) (a b c d : Fin 16) (x y : UInt32) : Block :=
  let v := v.set a (v[a] + v[b] + x)
  let v := v.set d (rotateRight (v[d] ^^^ v[a]) 16)
  let v := v.set c (v[c] + v[d])
  let v := v.set b (rotateRight (v[b] ^^^ v[c]) 12)
  let v := v.set a (v[a] + v[b] + y)
  let v := v.set d (rotateRight (v[d] ^^^ v[a]) 8)
  let v := v.set c (v[c] + v[d])
  v.set b (rotateRight (v[b] ^^^ v[c]) 7)

/-- One round: the four columns, then the four diagonals. -/
def round (v m : Block) : Block :=
  let v := mix v 0 4 8 12 m[0] m[1]
  let v := mix v 1 5 9 13 m[2] m[3]
  let v := mix v 2 6 10 14 m[4] m[5]
  let v := mix v 3 7 11 15 m[6] m[7]
  let v := mix v 0 5 10 15 m[8] m[9]
  let v := mix v 1 6 11 12 m[10] m[11]
  let v := mix v 2 7 8 13 m[12] m[13]
  mix v 3 4 9 14 m[14] m[15]

/-- Rounds in sequence, with the words of the block rearranged after each. -/
def rounds : Nat → Block → Block → Block
  | 0, v, _ => v
  | n + 1, v, m => rounds n (round v m) (schedule.map fun i => m[i])

/-- A compression that is ready to be carried out. -/
structure Node where
  chaining : Chaining
  block : Block
  counter : Nat
  length : Nat
  flags : UInt32

/-- The first half of the compressed state. -/
def Node.compress (n : Node) : Chaining :=
  let h := n.chaining
  let start : Block :=
    #v[h[0], h[1], h[2], h[3], h[4], h[5], h[6], h[7],
       initial[0], initial[1], initial[2], initial[3],
       n.counter.toUInt32, (n.counter / 4294967296).toUInt32, n.length.toUInt32, n.flags]
  let v := rounds 7 start n.block
  #v[v[0] ^^^ v[8], v[1] ^^^ v[9], v[2] ^^^ v[10], v[3] ^^^ v[11],
     v[4] ^^^ v[12], v[5] ^^^ v[13], v[6] ^^^ v[14], v[7] ^^^ v[15]]

/-- Pieces of a given size in order, the last one possibly shorter. There is
always at least one piece. -/
def pieces {α : Type} (size : Nat) (hsize : 0 < size) (xs : List α) : List (List α) :=
  if xs.length ≤ size then [xs]
  else xs.take size :: pieces size hsize (xs.drop size)
termination_by xs.length
decreasing_by simp only [List.length_drop]; omega

/-- Four bytes as a word, lowest first; missing bytes count as zero. -/
def word (bytes : List UInt8) : UInt32 :=
  bytes.foldr (fun byte value => value <<< 8 ||| byte.toUInt32) 0

/-- The sixteen words of a block, padded with zeros. -/
def blockOf (bytes : List UInt8) : Block :=
  Vector.ofFn fun i => word ((bytes.drop (4 * i.val)).take 4)

/-- The last compression of a chunk whose blocks remain from some point on. -/
def chunkNode (counter : Nat) : Chaining → UInt32 → List (List UInt8) → Node
  | h, start, [] => ⟨h, blockOf [], counter, 0, start ||| chunkEnd⟩
  | h, start, [last] => ⟨h, blockOf last, counter, last.length, start ||| chunkEnd⟩
  | h, start, b :: rest =>
    chunkNode counter (Node.compress ⟨h, blockOf b, counter, b.length, start⟩) 0 rest

/-- The last compression of a chunk at some place of the input. -/
def chunk (counter : Nat) (bytes : List UInt8) : Node :=
  chunkNode counter initial chunkStart (pieces 64 (by decide) bytes)

/-- The compression that joins two subtrees. -/
def join (left right : Chaining) : Node :=
  ⟨initial, Vector.ofFn fun i => if h : i.val < 8 then left[i.val] else right[i.val - 8],
    0, 64, parent⟩

/-- Adds a subtree to those that wait, joining equals: after `count` chunks a
subtree waits for each one in the binary form of `count`. -/
def push (count : Nat) (h : Chaining) : List Chaining → List Chaining
  | [] => [h]
  | left :: waiting =>
    if count % 2 = 0 then push (count / 2) (join left h).compress waiting
    else h :: left :: waiting

/-- The root of the tree over the chunks from some place on. -/
def tree (counter : Nat) (waiting : List Chaining) : List (List UInt8) → Node
  | [] => waiting.foldl (fun node left => join left node.compress) (chunk counter [])
  | [last] => waiting.foldl (fun node left => join left node.compress) (chunk counter last)
  | c :: rest => tree (counter + 1) (push (counter + 1) (chunk counter c).compress waiting) rest

/-- The words of the hash. -/
def hashWords (bytes : List UInt8) : Chaining :=
  let node := tree 0 [] (pieces 1024 (by decide) bytes)
  Node.compress ⟨node.chaining, node.block, node.counter, node.length, node.flags ||| root⟩

/-- A word as eight hexadecimal digits, in the order of its bytes. -/
def wordHex (w : UInt32) : List Char :=
  [w, w >>> 8, w >>> 16, w >>> 24].flatMap fun byte =>
    [Nat.digitChar (byte.toNat % 256 / 16), Nat.digitChar (byte.toNat % 16)]

/-- The hash in lower-case hexadecimal digits. -/
def hash (bytes : List UInt8) : String := String.ofList ((hashWords bytes).toList.flatMap wordHex)

/-- The hash of the bytes that encode a text. -/
def hashText (s : String) : String := hash s.toUTF8.toList

end Perimeter.Blake3
