/-!
The hash function BLAKE3, without a key and with a digest of 32 bytes. The input is cut into chunks
of 1024 bytes and these into blocks of 64; the blocks of a chunk are compressed one after the
other, and the chunks are joined in a binary tree whose left half is always complete.
-/

namespace PinnedTree.Blake3

/-- The sixteen words of a block or of the state of the compression. -/
abbrev Block := Vector UInt32 16

/-- The eight words that the compression passes on. -/
abbrev Chaining := Vector UInt32 8

def start : Chaining :=
  #v[0x6A09E667, 0xBB67AE85, 0x3C6EF372, 0xA54FF53A,
    0x510E527F, 0x9B05688C, 0x1F83D9AB, 0x5BE0CD19]

def chunkStart : UInt32 := 1

def chunkEnd : UInt32 := 2

/-- Marks the joining of two subtrees. -/
def parent : UInt32 := 4

/-- Marks the last compression of all. -/
def root : UInt32 := 8

/-- The words of a block are taken in this order for the next round. -/
def schedule : Vector (Fin 16) 16 :=
  #v[2, 6, 3, 10, 7, 0, 4, 13, 1, 11, 12, 5, 9, 14, 15, 8]

def rotate (word count : UInt32) : UInt32 :=
  (word >>> count) ||| (word <<< (32 - count))

/-- Mixes two words of a block into four words of the state. -/
def mix (state : Block) (a b c d : Fin 16) (x y : UInt32) : Block :=
  let va := state[a] + state[b] + x
  let vd := rotate (state[d] ^^^ va) 16
  let vc := state[c] + vd
  let vb := rotate (state[b] ^^^ vc) 12
  let va := va + vb + y
  let vd := rotate (vd ^^^ va) 8
  let vc := vc + vd
  let vb := rotate (vb ^^^ vc) 7
  (((state.set a va).set b vb).set c vc).set d vd

/-- Mixes a block into the columns and then into the diagonals of the state. -/
def round (state block : Block) : Block :=
  let state := mix state 0 4 8 12 block[0] block[1]
  let state := mix state 1 5 9 13 block[2] block[3]
  let state := mix state 2 6 10 14 block[4] block[5]
  let state := mix state 3 7 11 15 block[6] block[7]
  let state := mix state 0 5 10 15 block[8] block[9]
  let state := mix state 1 6 11 12 block[10] block[11]
  let state := mix state 2 7 8 13 block[12] block[13]
  mix state 3 4 9 14 block[14] block[15]

def permute (block : Block) : Block :=
  Vector.ofFn fun i => block[schedule[i]]

def rounds : Nat → Block → Block → Block
  | 0, state, _ => state
  | count + 1, state, block => rounds count (round state block) (permute block)

/-- Compresses a block of some bytes into a chain. -/
def compress (chain : Chaining) (block : Block) (counter : Nat) (length : Nat) (flags : UInt32) :
    Chaining :=
  let tail : Chaining := #v[start[0], start[1], start[2], start[3],
    counter.toUInt32, (counter >>> 32).toUInt32, length.toUInt32, flags]
  let state := rounds 7 (chain ++ tail) block
  Vector.ofFn fun i => state[i.val] ^^^ state[i.val + 8]

/-- A word of four bytes, the lowest first. -/
def word (bytes : Array UInt8) (index : Nat) : UInt32 :=
  let byte (offset : Nat) : UInt32 := (bytes[4 * index + offset]?.getD 0).toUInt32
  byte 0 ||| (byte 1 <<< 8) ||| (byte 2 <<< 16) ||| (byte 3 <<< 24)

/-- The words of at most 64 bytes, with zeros after them. -/
def blockWords (bytes : List UInt8) : Block :=
  let bytes := bytes.toArray
  Vector.ofFn fun i => word bytes i

/-- Cuts a list into pieces of `size + 1` with the remainder last. -/
def pieces {α : Type} (size : Nat) : List α → List (List α)
  | [] => []
  | first :: rest => (first :: rest.take size) :: pieces size (rest.drop size)
  termination_by list => list.length
  decreasing_by
    simp only [List.length_drop, List.length_cons]
    omega

/-- Compresses the blocks of a chunk. -/
def chainBlocks (counter : Nat) (last : UInt32) : Chaining → UInt32 → List (List UInt8) → Chaining
  | chain, flags, [] => compress chain (blockWords []) counter 0 (flags ||| last)
  | chain, flags, [block] =>
    compress chain (blockWords block) counter block.length (flags ||| last)
  | chain, flags, block :: next :: rest =>
    chainBlocks counter last (compress chain (blockWords block) counter block.length flags) 0
      (next :: rest)

/-- The chaining words of a chunk. -/
def chunk (counter : Nat) (final : UInt32) (bytes : List UInt8) : Chaining :=
  chainBlocks counter (chunkEnd ||| final) start chunkStart (pieces 63 bytes)

def join (final : UInt32) (left right : Chaining) : Chaining :=
  compress start (left ++ right) 0 64 (parent ||| final)

/-- Joins chunks, the left half being the largest power of two that leaves a right half. -/
def joinAll (final : UInt32) (chunks : List Chaining) : Chaining :=
  match chunks with
  | [] => start
  | [only] => only
  | first :: second :: rest =>
    let size := Nat.pow 2 (rest.length + 1).log2
    join final (joinAll 0 ((first :: second :: rest).take size))
      (joinAll 0 ((first :: second :: rest).drop size))
  termination_by chunks.length
  decreasing_by
    · have bound : Nat.pow 2 (rest.length + 1).log2 ≤ rest.length + 1 := Nat.log2_self_le (by omega)
      simp only [List.length_take, List.length_cons]
      omega
    · have positive : 0 < Nat.pow 2 (rest.length + 1).log2 := Nat.two_pow_pos _
      simp only [List.length_drop, List.length_cons]
      omega

def digest (bytes : List UInt8) : Chaining :=
  match pieces 1023 bytes with
  | [] => chunk 0 root []
  | [only] => chunk 0 root only
  | first :: second :: rest =>
    joinAll root ((first :: second :: rest).mapIdx fun counter bytes => chunk counter 0 bytes)

/-- The bytes of a word, the lowest first. -/
def wordBytes (word : UInt32) : List UInt8 :=
  [word.toUInt8, (word >>> 8).toUInt8, (word >>> 16).toUInt8, (word >>> 24).toUInt8]

def hexByte (byte : UInt8) : List Char :=
  [Nat.digitChar (byte.toNat / 16), Nat.digitChar (byte.toNat % 16)]

/-- The first eight bytes of the digest of a text, in hexadecimal. -/
def shortHex (text : String) : List Char :=
  let words := digest text.toUTF8.toList
  (wordBytes words[0] ++ wordBytes words[1]).flatMap hexByte

end PinnedTree.Blake3
