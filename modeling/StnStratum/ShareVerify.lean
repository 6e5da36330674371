import StnStratum.Buffer

/-!
# Classifying a share

`stn_share_classify` takes a template's block and a nonce, puts the nonce into
the block's header, hashes the header under a domain tag and compares the
digest with two targets: above the share target the proof is worthless, below
the chain target it is a block, between the two it is a share.

The hash is the SHA-256 of `stn_share_verify.c`, with its own context: the
chaining words, the count of bits, and a block that fills up. The functions
keep the names they have there.
-/

namespace ShareVerify

/-! ## The hash -/

/-- A `uint32_t`. -/
abbrev Word := BitVec 32

/-- The eight chaining words `s[0]` to `s[7]`. -/
structure Words where
  /-- The words, in the names the round gives them. -/
  (a b c d e f g h : Word)
  deriving DecidableEq

/-- **`ctx`**: the state of a hash under way. -/
structure Ctx where
  /-- The chaining words. -/
  s : Words
  /-- The bits hashed so far, modulo `2 ^ 64`. -/
  bits : UInt64
  /-- The block being filled. -/
  b : Buf 64
  /-- How much of it is filled. -/
  n : ℕ
  deriving DecidableEq

/-- `rr`, rotation to the right. -/
def rr (v : Word) (n : ℕ) : Word := (v >>> n) ||| (v <<< (32 - n))

/-- `r32`, the word at the front of a byte string. -/
def r32 (p : Bytes) : Word := BitVec.ofNat 32 (readBE (p.take 4))

/-- `w32`, the four bytes of a word. -/
def w32 (v : Word) : Bytes := writeBE 4 v.toNat

/-- The round constants. -/
def k : List Word :=
  [0x428a2f98, 0x71374491, 0xb5c0fbcf, 0xe9b5dba5, 0x3956c25b, 0x59f111f1,
   0x923f82a4, 0xab1c5ed5, 0xd807aa98, 0x12835b01, 0x243185be, 0x550c7dc3,
   0x72be5d74, 0x80deb1fe, 0x9bdc06a7, 0xc19bf174, 0xe49b69c1, 0xefbe4786,
   0x0fc19dc6, 0x240ca1cc, 0x2de92c6f, 0x4a7484aa, 0x5cb0a9dc, 0x76f988da,
   0x983e5152, 0xa831c66d, 0xb00327c8, 0xbf597fc7, 0xc6e00bf3, 0xd5a79147,
   0x06ca6351, 0x14292967, 0x27b70a85, 0x2e1b2138, 0x4d2c6dfc, 0x53380d13,
   0x650a7354, 0x766a0abb, 0x81c2c92e, 0x92722c85, 0xa2bfe8a1, 0xa81a664b,
   0xc24b8b70, 0xc76c51a3, 0xd192e819, 0xd6990624, 0xf40e3585, 0x106aa070,
   0x19a4c116, 0x1e376c08, 0x2748774c, 0x34b0bcb5, 0x391c0cb3, 0x4ed8aa4a,
   0x5b9cca4f, 0x682e6ff3, 0x748f82ee, 0x78a5636f, 0x84c87814, 0x8cc70208,
   0x90befffa, 0xa4506ceb, 0xbef9a3f7, 0xc67178f2]

/-- The schedule's turn `i`: the words so far, and the one made of four of
them. -/
def extend (w : List Word) (i : ℕ) : List Word :=
  let x := rr (w.getD (i - 15) 0) 7 ^^^ rr (w.getD (i - 15) 0) 18
    ^^^ (w.getD (i - 15) 0 >>> 3)
  let y := rr (w.getD (i - 2) 0) 17 ^^^ rr (w.getD (i - 2) 0) 19
    ^^^ (w.getD (i - 2) 0 >>> 10)
  w ++ [w.getD (i - 16) 0 + x + w.getD (i - 7) 0 + y]

/-- The 64 words `w` of a block. -/
def schedule (b : Bytes) : List Word :=
  (List.range' 16 48).foldl extend
    ((List.range 16).map fun i => r32 (b.drop (i * 4)))

/-- One round, under its constant and its word. -/
def round (v : Words) (kw : Word × Word) : Words :=
  let s1 := rr v.e 6 ^^^ rr v.e 11 ^^^ rr v.e 25
  let ch := (v.e &&& v.f) ^^^ (~~~v.e &&& v.g)
  let t1 := v.h + s1 + ch + kw.1 + kw.2
  let s0 := rr v.a 2 ^^^ rr v.a 13 ^^^ rr v.a 22
  let maj := (v.a &&& v.b) ^^^ (v.a &&& v.c) ^^^ (v.b &&& v.c)
  let t2 := s0 + maj
  ⟨t1 + t2, v.a, v.b, v.c, v.d + t1, v.e, v.f, v.g⟩

/-- **`tr`**, the compression of one block into the chaining words. -/
def tr (s : Words) (b : Bytes) : Words :=
  let v := (k.zip (schedule b)).foldl round s
  ⟨s.a + v.a, s.b + v.b, s.c + v.c, s.d + v.d, s.e + v.e, s.f + v.f,
    s.g + v.g, s.h + v.h⟩

/-- **`init`**, on a context whose block holds `b`. -/
def init (b : Buf 64) : Ctx :=
  ⟨⟨0x6a09e667, 0xbb67ae85, 0x3c6ef372, 0xa54ff53a, 0x510e527f, 0x9b05688c,
    0x1f83d9ab, 0x5be0cd19⟩, 0, b, 0⟩

/-- One turn of `up`: as much of `p` as the block has room for, and the
compression of the block if that filled it. -/
def upTurn (c : Ctx) (p : Bytes) : Ctx :=
  let q := min (64 - c.n) p.length
  let c := { c with
    b := c.b.write c.n (p.take q)
    n := c.n + q
    bits := c.bits + UInt64.ofNat q * 8 }
  if c.n = 64 then { c with s := tr c.s c.b.bytes, n := 0 } else c

/-- `up` with a bound on the turns, which the length of `p` is. -/
def upAux : ℕ → Ctx → Bytes → Ctx
  | 0, c, _ => c
  | fuel + 1, c, p =>
    if p.length = 0 then c
    else upAux fuel (upTurn c p) (p.drop (min (64 - c.n) p.length))

/-- **`up`**, which feeds a byte string to the hash. -/
def up (c : Ctx) (p : Bytes) : Ctx := upAux p.length c p

/-- **`fin`**, the padding, the bit count and the digest. -/
def fin (c : Ctx) : Bytes :=
  let bits := c.bits
  let c := { c with b := c.b.write c.n [0x80], n := c.n + 1 }
  let c :=
    if 56 < c.n then
      let b := c.b.write c.n (List.replicate (64 - c.n) 0)
      { c with b := b, s := tr c.s b.bytes, n := 0 }
    else c
  let b := c.b.write c.n (List.replicate (56 - c.n) 0)
  let b := b.storeBE 56 8 bits.toNat
  let s := tr c.s b.bytes
  w32 s.a ++ w32 s.b ++ w32 s.c ++ w32 s.d ++ w32 s.e ++ w32 s.f ++ w32 s.g
    ++ w32 s.h

@[simp] theorem length_fin (c : Ctx) : (fin c).length = 32 := by
  unfold fin w32
  simp only [List.length_append, length_writeBE]

/-! ## The classification -/

/-- `STN_SHARE_INVALID`, `STN_SHARE_QUALIFYING` and `STN_SHARE_BLOCK`. -/
inductive ShareClass where
  /-- The proof exceeds the share target. -/
  | invalid
  /-- A share. -/
  | qualifying
  /-- A block. -/
  | block
  deriving DecidableEq

/-- `domain`, its terminating zero included. -/
def domain : Bytes :=
  [0x53, 0x54, 0x4e, 0x2d, 0x43, 0x48, 0x41, 0x49, 0x4e, 0x3a, 0x42, 0x4c,
   0x4f, 0x43, 0x4b, 0x3a, 0x49, 0x44, 0x3a, 0x31, 0x00]

/-- **The header that is hashed**: the first 168 bytes of the block, with the
nonce stored at byte 152. -/
def header (block : Bytes) (nonce : ℕ) : Buf 168 :=
  ((Buf.zero 168).write 0 (slice block 0 168)).storeBE 152 8 nonce

/-- The digest of a header under the domain tag. -/
def digest (header : Bytes) : Bytes :=
  fin (up (up (init (Buf.zero 64)) domain) header)

/-- **`stn_share_classify`**, with the digest it hands out where the proof is
worth something. -/
def shareClassify (block : Bytes) (length nonce : ℕ) (share chain : Bytes) :
    ShareClass × Option Bytes :=
  if length < 168 then (.invalid, none)
  else
    let hash := digest (header block nonce).bytes
    if !leBytes hash share then (.invalid, none)
    else if leBytes hash chain then (.block, some hash)
    else (.qualifying, some hash)

/-- The digest is 32 bytes. -/
@[simp] theorem length_digest (h : Bytes) : (digest h).length = 32 :=
  length_fin _

/-- **The header is the block's, the nonce aside.** -/
theorem header_bytes {block : Bytes} (h : 168 ≤ block.length) (nonce : ℕ) :
    (header block nonce).bytes
      = slice block 0 152 ++ writeBE 8 nonce ++ slice block 160 8 := by
  have hs : (slice block 0 168).length = 168 := length_slice (by omega)
  have hb : ((Buf.zero 168).write 0 (slice block 0 168)).bytes
      = slice block 0 168 := Buf.write_zero_of_length hs
  have hw := length_writeBE 8 nonce
  rw [header, Buf.storeBE_eq_write (by decide), Buf.write_bytes (by
    rw [hw]; decide), hb, hw]
  unfold slice
  rw [List.take_take, List.drop_zero, List.drop_take]
  rfl

section Classify

variable {block : Bytes} {length nonce : ℕ} {share chain : Bytes}

/-- **What a proof comes to** is said by the two targets. -/
theorem shareClassify_eq (hl : 168 ≤ length) :
    (shareClassify block length nonce share chain).1
      = match leBytes (digest (header block nonce).bytes) share,
          leBytes (digest (header block nonce).bytes) chain with
        | false, _ => .invalid
        | true, true => .block
        | true, false => .qualifying := by
  unfold shareClassify
  rw [if_neg (Nat.not_lt.mpr hl)]
  dsimp only
  cases leBytes (digest (header block nonce).bytes) share with
  | false => rfl
  | true =>
    cases leBytes (digest (header block nonce).bytes) chain with
    | false => rfl
    | true => rfl

/-- A block that is too short comes to nothing. -/
theorem shareClassify_short (hl : length < 168) :
    (shareClassify block length nonce share chain).1 = .invalid := by
  unfold shareClassify
  rw [if_pos hl]

/-- **When a proof is a block**: the digest meets both targets. -/
theorem shareClassify_eq_block_iff :
    (shareClassify block length nonce share chain).1 = .block
      ↔ 168 ≤ length
        ∧ leBytes (digest (header block nonce).bytes) share = true
        ∧ leBytes (digest (header block nonce).bytes) chain = true := by
  rcases Nat.lt_or_ge length 168 with hl | hl
  · rw [shareClassify_short hl]
    exact iff_of_false (by decide) fun h => absurd h.1 (Nat.not_le_of_lt hl)
  · rw [shareClassify_eq hl, and_iff_right hl]
    cases leBytes (digest (header block nonce).bytes) share <;>
    cases leBytes (digest (header block nonce).bytes) chain <;>
    decide

/-- **When a proof is a share**: the digest meets the share target and misses
the chain target. -/
theorem shareClassify_eq_qualifying_iff :
    (shareClassify block length nonce share chain).1 = .qualifying
      ↔ 168 ≤ length
        ∧ leBytes (digest (header block nonce).bytes) share = true
        ∧ leBytes (digest (header block nonce).bytes) chain = false := by
  rcases Nat.lt_or_ge length 168 with hl | hl
  · rw [shareClassify_short hl]
    exact iff_of_false (by decide) fun h => absurd h.1 (Nat.not_le_of_lt hl)
  · rw [shareClassify_eq hl, and_iff_right hl]
    cases leBytes (digest (header block nonce).bytes) share <;>
    cases leBytes (digest (header block nonce).bytes) chain <;>
    decide

end Classify

end ShareVerify
