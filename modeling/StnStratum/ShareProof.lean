import StnStratum.Sha256
import StnStratum.ShareTarget
import StnStratum.ShareVerify

/-!
# The proof of a share

What `stn_share_verify.c` hashes and what it makes of the digest. Its hash has
a block that fills up and a padding that may need a second one. The context is
related to the message so far: the chaining words are those of the blocks that
are whole, and the block that fills up begins with the rest
(`ShareVerify.Absorbed`). A turn of `up` keeps that (`ShareVerify.Absorbed.upTurn`),
so a run of `up` over chunks of any sizes does, and `fin` makes the digest of
the standard's hash of it (`ShareVerify.share_digest_sha256`).

The classification compares the digest with two targets. It is right because
the share target is never below the chain target, where there is one at all
(`ShareVerify.share_classification`).
-/

namespace ShareVerify

/-! ## The compression -/

/-- The chaining words as a hash value. -/
def Words.hash (s : Words) : Sha256.Hash := ⟨s.a, s.b, s.c, s.d, s.e, s.f, s.g, s.h⟩

/-- The table of constants is the standard's. -/
theorem k_eq : k = Sha256.K := by decide +kernel

/-- The words `init` stores are the standard's. -/
theorem init_words (b : Buf 64) : (init b).s.hash = Sha256.initial := by
  show Words.hash ⟨_, _, _, _, _, _, _, _⟩ = _
  decide +kernel

/-- The words of a block are read from its front. -/
theorem schedule_front (b : Bytes) {n : ℕ} (h : n ≤ 16) :
    (List.range n).map (fun i => r32 (b.drop (i * 4))) = Sha256.schedule b n := by
  induction n with
  | zero => rfl
  | succ n ih =>
    rw [List.range_succ, List.map_append, ih (by omega), Sha256.schedule,
      List.map_singleton, if_pos (by omega), Nat.mul_comm]
    rfl

/-- A turn of the schedule loop is the recurrence of the standard. -/
theorem extend_schedule (b : Bytes) {i : ℕ} (h : 16 ≤ i) :
    extend (Sha256.schedule b i) i = Sha256.schedule b (i + 1) := by
  rw [Sha256.schedule, if_neg (by omega), extend]
  congr 2
  show _ + Sha256.smallSigma0 _ + _ + Sha256.smallSigma1 _ = _
  ac_rfl

/-- **The schedule is the standard's.** -/
theorem schedule_eq (b : Bytes) : schedule b = Sha256.schedule b 64 := by
  have hrun : ∀ n, (List.range' 16 n).foldl extend (Sha256.schedule b 16)
      = Sha256.schedule b (16 + n) := by
    intro n
    induction n with
    | zero => rfl
    | succ n ih =>
      rw [List.range'_concat, List.foldl_append, ih, Nat.one_mul]
      exact extend_schedule b (by omega)
  rw [schedule, schedule_front b (le_refl 16)]
  exact hrun 48

/-- **`tr` is the compression of the standard.** -/
theorem hash_tr (s : Words) (b : Bytes) :
    (tr s b).hash = Sha256.compress s.hash b := by
  have hround : ∀ l : List (Word × Word),
      (l.foldl round s).hash = l.foldl Sha256.round s.hash := fun l =>
    (List.foldl_hom Words.hash (fun _ _ => rfl)).symm
  rw [Sha256.compress, ← hround, ← schedule_eq, ← k_eq, tr]
  generalize (k.zip (schedule b)).foldl round s = v
  rfl

/-! ## The context and the message -/

/-- **The context behind a message.** -/
structure Absorbed (m : Bytes) (c : Ctx) : Prop where
  /-- The blocks that are whole are compressed. -/
  words : c.s.hash = BlockHash.absorb Sha256.compress 64 Sha256.initial m
  /-- The rest is counted. -/
  filled : c.n = (BlockHash.rest 64 m).length
  /-- The rest waits in the block. -/
  block : c.b.Begins (BlockHash.rest 64 m)
  /-- The bits of the message are counted. -/
  bits : c.bits = UInt64.ofNat (8 * m.length)

/-- `init` is behind the empty message. -/
theorem absorbed_init (b : Buf 64) : Absorbed [] (init b) where
  words := (init_words b).trans BlockHash.absorb_nil.symm
  filled := by rw [BlockHash.rest_nil]; rfl
  block := by rw [BlockHash.rest_nil]; exact Buf.begins_nil b
  bits := rfl

/-- The block has room. -/
theorem Absorbed.n_lt {m : Bytes} {c : Ctx} (h : Absorbed m c) : c.n < 64 := by
  rw [h.filled]
  exact BlockHash.length_rest_lt (by decide)

/-- The bits of what is added are added. -/
theorem Absorbed.bits_append {m p : Bytes} {c : Ctx} (h : Absorbed m c) :
    c.bits + UInt64.ofNat p.length * 8 = UInt64.ofNat (8 * (m ++ p).length) := by
  rw [h.bits, List.length_append, Nat.mul_add, UInt64.ofNat_add,
    Nat.mul_comm 8 p.length, UInt64.ofNat_mul p.length]
  rfl

/-- **A turn of `up`** is behind the message with what the turn takes. -/
theorem Absorbed.upTurn {m p : Bytes} {c : Ctx} (h : Absorbed m c) :
    Absorbed (m ++ p.take (min (64 - c.n) p.length)) (upTurn c p) := by
  generalize hq : min (64 - c.n) p.length = q
  have hlt := h.n_lt
  have htake : (p.take q).length = q := by
    rw [List.length_take]
    omega
  have hrest := h.filled
  have hbits := h.bits_append (p := p.take q)
  have hblock := h.block.write (s := p.take q) hrest.symm (by omega)
  rw [htake] at hbits
  rw [ShareVerify.upTurn, hq]
  dsimp only
  by_cases hfull : c.n + q = 64
  · -- the block is full: it is compressed, and nothing is left
    have happ : BlockHash.absorb Sha256.compress 64 Sha256.initial
          (m ++ p.take q) = _ ∧ BlockHash.rest 64 (m ++ p.take q) = [] :=
      BlockHash.absorb_append_of_eq (by decide) (by omega)
    have hb := hblock.bytes_eq (by rw [List.length_append]; omega)
    rw [if_pos hfull]
    exact ⟨by rw [happ.1, hash_tr, h.words, hb], by rw [happ.2]; rfl,
      by rw [happ.2]; exact Buf.begins_nil _, hbits⟩
  · have happ : BlockHash.absorb Sha256.compress 64 Sha256.initial
          (m ++ p.take q) = _
        ∧ BlockHash.rest 64 (m ++ p.take q) = BlockHash.rest 64 m ++ p.take q :=
      BlockHash.absorb_append_of_lt (by omega)
    rw [if_neg hfull]
    exact ⟨by rw [happ.1]; exact h.words,
      by rw [happ.2, List.length_append, htake, ← hrest],
      by rw [happ.2]; exact hblock, hbits⟩

/-- **`up`** is behind the message with what it is given. -/
theorem Absorbed.up {m p : Bytes} {c : Ctx} (h : Absorbed m c) :
    Absorbed (m ++ p) (up c p) := by
  have hrun : ∀ fuel (m p : Bytes) (c : Ctx), p.length ≤ fuel → Absorbed m c →
      Absorbed (m ++ p) (upAux fuel c p) := by
    intro fuel
    induction fuel with
    | zero =>
      intro m p c hle h
      rw [List.eq_nil_of_length_eq_zero (Nat.le_zero.mp hle), List.append_nil]
      exact h
    | succ fuel ih =>
      intro m p c hle h
      rw [upAux]
      by_cases hp : p.length = 0
      · rw [if_pos hp, List.eq_nil_of_length_eq_zero hp, List.append_nil]
        exact h
      · -- a turn takes a byte at least, as the block has room
        have hlt := h.n_lt
        have hturn := h.upTurn (p := p)
        rw [if_neg hp]
        generalize hq : min (64 - c.n) p.length = q at hturn ⊢
        have hrest := ih _ (p.drop q) _ (by rw [List.length_drop]; omega) hturn
        rw [List.append_assoc, List.take_append_drop] at hrest
        exact hrest
  exact hrun p.length m p c (le_refl _) h

/-- **A run of `up`** over chunks is behind what they are together. -/
theorem absorbed_run (b : Buf 64) (chunks : List Bytes) :
    Absorbed chunks.flatten (chunks.foldl up (init b)) := by
  induction chunks using List.reverseRecOn with
  | nil => exact absorbed_init b
  | append_singleton chunks p ih =>
    rw [List.foldl_append, List.flatten_append, List.flatten_singleton]
    exact ih.up

/-! ## The padding -/

/-- `c->b[c->n++] = x`. -/
def Ctx.store (c : Ctx) (x : UInt8) : Ctx :=
  { c with b := c.b.write c.n [x], n := c.n + 1 }

/-- `m` turns of a loop that stores zeros. -/
def Ctx.zeros (c : Ctx) (m : ℕ) : Ctx := (fun c => c.store 0)^[m] c

/-- The contexts a loop that stores zeros up to `limit` goes through. -/
def Ctx.filling (c : Ctx) (limit : ℕ) : List Ctx :=
  (List.range (limit + 1 - c.n)).map c.zeros

/-- The context behind the first block of the padding, where there are two. -/
def Ctx.spilled (c : Ctx) : Ctx :=
  let c := c.zeros (64 - c.n)
  { c with s := tr c.s c.b.bytes, n := 0 }

/-- **The contexts `fin` goes through**, store by store. -/
def finStates (c : Ctx) : List Ctx :=
  let c := c.store 0x80
  if 56 < c.n then c.filling 64 ++ c.spilled.filling 56 else c.filling 56

/-- Zeros stored one by one are zeros stored at once. -/
theorem Ctx.zeros_eq (c : Ctx) {m : ℕ} (h : c.n + m ≤ 64) :
    c.zeros m
      = { c with b := c.b.write c.n (List.replicate m 0), n := c.n + m } := by
  induction m with
  | zero =>
    rw [List.replicate_zero, Buf.write_nil]
    rfl
  | succ m ih =>
    have hw : (c.b.write c.n (List.replicate m 0)).write (c.n + _) [0] = _ :=
      Buf.write_write (by
        rw [List.length_replicate, List.length_singleton]
        omega)
    rw [List.length_replicate, ← List.replicate_succ'] at hw
    rw [Ctx.zeros, Function.iterate_succ_apply', ← Ctx.zeros, ih (by omega),
      ← hw]
    rfl

/-- What the first of two blocks leaves. -/
theorem Ctx.spilled_eq (c : Ctx) (h : c.n ≤ 64) :
    c.spilled = { c with
      b := c.b.write c.n (List.replicate (64 - c.n) 0)
      s := tr c.s (c.b.write c.n (List.replicate (64 - c.n) 0)).bytes
      n := 0 } := by
  rw [Ctx.spilled, Ctx.zeros_eq c (by omega)]

/-- A loop that stores zeros fills the block from where it begins. -/
theorem Ctx.begins_zeros {c : Ctx} {r : Bytes} {m : ℕ} (h : c.b.Begins r)
    (hn : c.n = r.length) (hm : c.n + m ≤ 64) :
    (c.zeros m).b.Begins (r ++ List.replicate m 0) := by
  rw [Ctx.zeros_eq c hm]
  exact h.write hn.symm (by rw [List.length_replicate]; exact hm)

/-- **The context behind the padding**, the bit count aside. -/
def Ctx.padded (c : Ctx) : Ctx :=
  let c := c.store 0x80
  if 56 < c.n then c.spilled.zeros 56 else c.zeros (56 - c.n)

/-- The index stays up to the limit of a loop that stores zeros, and the loop
ends at its limit. -/
theorem Ctx.filling_spec (c : Ctx) (limit : ℕ) (hn : c.n ≤ limit)
    (hlimit : limit ≤ 64) :
    (∀ d ∈ c.filling limit, d.n ≤ limit)
      ∧ (c.filling limit).getLast? = some (c.zeros (limit - c.n)) := by
  constructor
  · intro d hd
    obtain ⟨i, hi, rfl⟩ := List.mem_map.mp hd
    have hlt := List.mem_range.mp hi
    rw [Ctx.zeros_eq c (by omega)]
    show c.n + i ≤ limit
    omega
  · rw [Ctx.filling, Nat.succ_sub hn, List.range_succ, List.map_append,
      List.map_singleton, List.getLast?_concat]

/-- **`fin` never reaches past the block**, and ends where `padded` does. -/
theorem finStates_spec {c : Ctx} (h : c.n < 64) :
    (∀ d ∈ finStates c, d.n ≤ 64)
      ∧ (finStates c).getLast? = some c.padded := by
  have hn : (c.store 0x80).n = c.n + 1 := rfl
  unfold finStates Ctx.padded
  dsimp only
  by_cases hspill : 56 < (c.store 0x80).n
  · rw [if_pos hspill, if_pos hspill]
    obtain ⟨hfull, _⟩ := Ctx.filling_spec (c.store 0x80) 64 (by omega)
      (le_refl 64)
    obtain ⟨hrest, hlast⟩ := Ctx.filling_spec (c.store 0x80).spilled 56
      (Nat.zero_le 56) (by decide)
    constructor
    · intro d hd
      obtain hd | hd := List.mem_append.mp hd
      · exact hfull d hd
      · exact (hrest d hd).trans (by decide)
    · rw [List.getLast?_append, hlast]
      rfl
  · rw [if_neg hspill, if_neg hspill]
    obtain ⟨hrest, hlast⟩ := Ctx.filling_spec (c.store 0x80) 56 (by omega)
      (by decide)
    exact ⟨fun d hd => (hrest d hd).trans (by decide), hlast⟩

/-- **`fin`** compresses the padded block with the bit count behind it. -/
theorem fin_eq {c : Ctx} (h : c.n < 64) :
    fin c = (tr c.padded.s
      (c.padded.b.storeBE 56 8 c.bits.toNat).bytes).hash.bytes := by
  have hbytes : ∀ s : Words, w32 s.a ++ w32 s.b ++ w32 s.c ++ w32 s.d ++ w32 s.e
      ++ w32 s.f ++ w32 s.g ++ w32 s.h = s.hash.bytes := by
    intro s
    simp only [Sha256.Hash.bytes, List.flatMap_cons, List.flatMap_nil,
      List.append_assoc, List.append_nil]
    rfl
  rw [fin]
  dsimp only
  rw [hbytes]
  by_cases hspill : 56 < c.n + 1
  · have hpad : c.padded = (c.store 0x80).spilled.zeros 56 := if_pos hspill
    rw [hpad, if_pos hspill,
      Ctx.zeros_eq _ (show (c.store 0x80).spilled.n + 56 ≤ 64 by
        show 0 + 56 ≤ 64; decide),
      Ctx.spilled_eq _ (show c.n + 1 ≤ 64 by omega)]
    rfl
  · have hpad : c.padded = (c.store 0x80).zeros (56 - (c.n + 1)) :=
      if_neg hspill
    rw [hpad, if_neg hspill,
      Ctx.zeros_eq _ (by show c.n + 1 + _ ≤ 64; omega)]
    rfl

/-- The bit count fills a block that is filled up to it. -/
theorem storeBE_begins {b : Buf 64} {r : Bytes} (h : b.Begins r)
    (hr : r.length = 56) (v : ℕ) :
    (b.storeBE 56 8 v).bytes = r ++ writeBE 8 v := by
  rw [Buf.storeBE_eq_write (by decide)]
  refine (h.write hr (by rw [length_writeBE])).bytes_eq ?_
  rw [List.length_append, length_writeBE, hr]

/-- **The padding of `fin` is the padding of the standard.** -/
theorem Absorbed.hash_padded {m : Bytes} {c : Ctx} (h : Absorbed m c)
    (hm : m.length < 2 ^ 61) :
    (tr c.padded.s (c.padded.b.storeBE 56 8 c.bits.toNat).bytes).hash
      = BlockHash.absorb Sha256.compress 64 Sha256.initial
        (m ++ Sha256.padding m.length) := by
  have hlt := h.n_lt
  have hbits : c.bits.toNat = 8 * m.length := by
    rw [h.bits]
    exact UInt64.toNat_ofNat_of_lt' (by show _ < 2 ^ 64; omega)
  have hmod : c.n = m.length % 64 := h.filled.trans BlockHash.length_rest
  have hmark : (c.store 0x80).b.Begins (BlockHash.rest 64 m ++ [0x80]) :=
    h.block.write h.filled.symm (by show c.n + 1 ≤ 64; omega)
  have hlen : (BlockHash.rest 64 m ++ [0x80]).length = c.n + 1 := by
    rw [List.length_append, ← h.filled]
    rfl
  rw [hbits]
  by_cases hspill : 56 < c.n + 1
  · -- the mark and zeros end a block, and the bit count is in the next one
    have hpad : c.padded = (c.store 0x80).spilled.zeros 56 := if_pos hspill
    have hz : Sha256.zeros m.length = (64 - (c.n + 1)) + 56 := by
      unfold Sha256.zeros
      omega
    generalize hfront : [0x80] ++ List.replicate (64 - (c.n + 1)) (0 : UInt8) = p
    have hp : (BlockHash.rest 64 m).length + p.length = 64 := by
      rw [← hfront, List.length_append, List.length_replicate, ← h.filled,
        List.length_singleton]
      omega
    have hpadding : m ++ Sha256.padding m.length
        = (m ++ p) ++ (List.replicate 56 0 ++ writeBE 8 (8 * m.length)) := by
      rw [Sha256.padding, hz, List.replicate_add, ← hfront]
      simp only [List.append_assoc]
    obtain ⟨hfirst, hnil⟩ : BlockHash.absorb Sha256.compress 64 Sha256.initial
          (m ++ p) = _ ∧ BlockHash.rest 64 (m ++ p) = [] :=
      BlockHash.absorb_append_of_eq (by decide) hp
    have hsecond : BlockHash.absorb Sha256.compress 64 Sha256.initial
        (m ++ p ++ (List.replicate 56 0 ++ writeBE 8 (8 * m.length))) = _ :=
      (BlockHash.absorb_append_of_eq (by decide) (by
        rw [hnil, List.length_append, length_writeBE, List.length_replicate]
        rfl)).1
    have hfull : ((c.store 0x80).b.write (c.n + 1)
        (List.replicate (64 - (c.n + 1)) 0)).bytes = BlockHash.rest 64 m ++ p := by
      rw [← hfront, ← List.append_assoc]
      refine (hmark.write hlen ?_).bytes_eq ?_
      · rw [List.length_replicate]
        omega
      · rw [List.length_append, hlen, List.length_replicate]
        omega
    have hfit : (c.store 0x80).spilled.n + 56 ≤ 64 := by
      show 0 + 56 ≤ 64
      decide
    have hblock := Ctx.begins_zeros (m := 56)
      (Buf.begins_nil (c.store 0x80).spilled.b) rfl hfit
    have hs : ((c.store 0x80).spilled.zeros 56).s.hash
        = Sha256.compress
          (BlockHash.absorb Sha256.compress 64 Sha256.initial m)
          (BlockHash.rest 64 m ++ p) := by
      rw [Ctx.zeros_eq _ hfit,
        Ctx.spilled_eq _ (show c.n + 1 ≤ 64 by omega)]
      show (tr c.s ((c.store 0x80).b.write (c.n + 1)
        (List.replicate (64 - (c.n + 1)) 0)).bytes).hash = _
      rw [hash_tr, hfull, h.words]
    rw [hpadding, hsecond, hnil, hfirst, hash_tr, hpad, hs,
      storeBE_begins hblock rfl, List.nil_append, List.nil_append]
  · have hpad : c.padded = (c.store 0x80).zeros (56 - (c.n + 1)) :=
      if_neg hspill
    have hz : Sha256.zeros m.length = 56 - (c.n + 1) := by
      unfold Sha256.zeros
      omega
    have hpadding : BlockHash.rest 64 m ++ Sha256.padding m.length
        = BlockHash.rest 64 m ++ [0x80] ++ List.replicate (56 - (c.n + 1)) 0
          ++ writeBE 8 (8 * m.length) := by
      rw [Sha256.padding, hz]
      simp only [List.append_assoc]
    have hblock := Ctx.begins_zeros (m := 56 - (c.n + 1)) hmark hlen.symm
      (by show c.n + 1 + _ ≤ 64; omega)
    have hwhole : BlockHash.absorb Sha256.compress 64 Sha256.initial
        (m ++ Sha256.padding m.length) = _ :=
      (BlockHash.absorb_append_of_eq (by decide) (by
        rw [Sha256.padding, hz, List.length_append, List.length_append,
          length_writeBE, List.length_replicate, List.length_singleton,
          ← h.filled]
        omega)).1
    rw [hwhole, hpadding, hash_tr, ← h.words, hpad, storeBE_begins hblock (by
      rw [List.length_append, hlen, List.length_replicate]; omega),
      Ctx.zeros_eq _ (by show c.n + 1 + _ ≤ 64; omega)]
    rfl

/-- **`fin` is the hash** of the message the context is behind. -/
theorem Absorbed.fin {m : Bytes} {c : Ctx} (h : Absorbed m c)
    (hm : m.length < 2 ^ 61) : fin c = Sha256.hash m := by
  rw [fin_eq h.n_lt, h.hash_padded hm, Sha256.hash]

/-- **The digest of a proof**: the hash of the tag and of the header with the
nonce in it. -/
theorem digest_header {block : Bytes} (h : 168 ≤ block.length) (nonce : ℕ) :
    digest (header block nonce).bytes
      = Sha256.hash (domain
        ++ (slice block 0 152 ++ writeBE 8 nonce ++ slice block 160 8)) := by
  have hrun := absorbed_run (Buf.zero 64) [domain, (header block nonce).bytes]
  have hflat : [domain, (header block nonce).bytes].flatten
      = domain ++ (header block nonce).bytes := by
    rw [List.flatten_cons, List.flatten_singleton]
  have hlen : (domain ++ (header block nonce).bytes).length < 2 ^ 61 := by
    rw [List.length_append, (header block nonce).size]
    decide
  rw [hflat] at hrun
  rw [← header_bytes h, ← hrun.fin hlen, digest, List.foldl_cons,
    List.foldl_cons, List.foldl_nil]

/-- **The digest is SHA-256.** However a message is cut into chunks, `init`,
`up` on each of them and `fin` make the digest of the message; the index into
the block stays below 64 between the chunks and does not pass 64 in `fin`. So
the digest a classification hands out is the hash of the tag, its terminating
zero included, and of the header with the nonce in it. -/
theorem share_digest_sha256 :
    (∀ (b : Buf 64) (chunks : List Bytes), chunks.flatten.length < 2 ^ 61 →
      fin (chunks.foldl up (init b)) = Sha256.hash chunks.flatten
        ∧ (∀ i, ((chunks.take i).foldl up (init b)).n < 64)
        ∧ ∀ c ∈ finStates (chunks.foldl up (init b)), c.n ≤ 64)
      ∧ ∀ (block : Bytes) (length nonce : ℕ) (share chain hash : Bytes),
        length ≤ block.length →
        (shareClassify block length nonce share chain).2 = some hash →
        hash = Sha256.hash (domain
          ++ (slice block 0 152 ++ writeBE 8 nonce ++ slice block 160 8)) := by
  constructor
  · intro b chunks hlen
    have hrun := absorbed_run b chunks
    exact ⟨hrun.fin hlen, fun i => (absorbed_run b (chunks.take i)).n_lt,
      (finStates_spec hrun.n_lt).1⟩
  · intro block length nonce share chain hash hle hsome
    unfold shareClassify at hsome
    by_cases hshort : length < 168
    · rw [if_pos hshort] at hsome
      exact absurd hsome (Option.some_ne_none hash).symm
    · rw [if_neg hshort, digest_header (by omega)] at hsome
      dsimp only at hsome
      split at hsome
      · exact absurd hsome (Option.some_ne_none hash).symm
      · split at hsome
        · exact (Option.some.inj hsome).symm
        · exact (Option.some.inj hsome).symm

/-- Three letters in chunks, one of them empty. -/
theorem share_digest_sha256_chunks :
    fin ([[0x61], [], [0x62, 0x63]].foldl up (init (Buf.zero 64)))
      = Sha256.hash [0x61, 0x62, 0x63] :=
  (share_digest_sha256.1 (Buf.zero 64) [[0x61], [], [0x62, 0x63]]
    (by decide)).1

/-! ## The three classes -/

/-- A proof that is neither a block nor a share is worthless. -/
theorem shareClassify_eq_invalid_iff {block : Bytes} {length nonce : ℕ}
    {share chain : Bytes} :
    (shareClassify block length nonce share chain).1 = .invalid
      ↔ (shareClassify block length nonce share chain).1 ≠ .block
        ∧ (shareClassify block length nonce share chain).1 ≠ .qualifying := by
  cases (shareClassify block length nonce share chain).1 <;> decide

/-- **The classes split the digests at the two targets.** For a chain target
`T` from `1` to `2^255 - 1` there is a share target, and a proof is a block
where its digest is at most `T`, a share where it is above `T` and at most
`min (2^255 - 1) (10 T)`, and worthless where it is above that. So a digest
that meets the chain target is a block, also where the share target is cut
off. -/
theorem share_classification (block : Bytes) {chain : Bytes} {length : ℕ}
    (hlen : 168 ≤ length) (hchain : chain.length = 32)
    (hone : 1 ≤ readBE chain) (hmax : readBE chain ≤ 2 ^ 255 - 1) (nonce : ℕ) :
    ∃ share, Server.shareTargetFromChain chain = some share
      ∧ let T := readBE chain
        let d := readBE (digest (header block nonce).bytes)
        let result := (shareClassify block length nonce share chain).1
        (result = .block ↔ d ≤ T)
          ∧ (result = .qualifying ↔ T < d ∧ d ≤ min (2 ^ 255 - 1) (10 * T))
          ∧ (result = .invalid ↔ min (2 ^ 255 - 1) (10 * T) < d) := by
  refine ⟨scaleTarget chain, (Server.shareTargetFromChain_eq_some_iff hchain).mpr
    ⟨⟨hone, by omega⟩, rfl⟩, ?_⟩
  intro T d result
  have hshare : leBytes (digest (header block nonce).bytes) (scaleTarget chain)
      = true ↔ d ≤ min (2 ^ 255 - 1) (10 * T) := by
    rw [← readBE_scaleTarget hchain]
    exact leBytes_iff (by rw [length_digest, length_scaleTarget hchain])
  have hblock : leBytes (digest (header block nonce).bytes) chain = true
      ↔ d ≤ T := leBytes_iff (by rw [length_digest, hchain])
  have isBlock : result = .block ↔ d ≤ T := by
    refine shareClassify_eq_block_iff.trans ?_
    rw [hshare, hblock]
    omega
  have isShare : result = .qualifying
      ↔ T < d ∧ d ≤ min (2 ^ 255 - 1) (10 * T) := by
    refine shareClassify_eq_qualifying_iff.trans ?_
    rw [← Bool.not_eq_true, hshare, hblock]
    omega
  refine ⟨isBlock, isShare, shareClassify_eq_invalid_iff.trans ?_⟩
  rw [ne_eq, ne_eq, isBlock, isShare]
  omega

/-- A header of zeros under a chain target of `2^252`, the share target of
which is cut off: the proof is a share. -/
theorem share_classification_saturating :
    ∃ share, Server.shareTargetFromChain (writeBE 32 (2 ^ 252)) = some share
      ∧ (shareClassify (List.replicate 168 0) 168 0 share
        (writeBE 32 (2 ^ 252))).1 = .qualifying := by
  have hT : readBE (writeBE 32 (2 ^ 252)) = 2 ^ 252 :=
    readBE_writeBE (by decide)
  obtain ⟨share, hshare, _, hqualifying, _⟩ := share_classification
    (List.replicate 168 0) (le_refl 168) (length_writeBE 32 (2 ^ 252))
    (by rw [hT]; decide) (by rw [hT]; decide) 0
  have hd : digest (header (List.replicate 168 0) 0).bytes
      = [92, 178, 221, 159, 28, 68, 244, 187, 196, 115, 23, 112, 36, 163, 104,
        230, 245, 251, 183, 249, 30, 204, 195, 204, 4, 33, 118, 87, 235, 3, 242,
        84] := by decide +kernel
  refine ⟨share, hshare, hqualifying.mpr ?_⟩
  rw [hT, hd]
  decide

end ShareVerify
