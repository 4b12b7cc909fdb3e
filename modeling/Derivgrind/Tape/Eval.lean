import Derivgrind.Lib.Adjoint
import Derivgrind.Lib.Chunks
import Derivgrind.Tape.Record

/-!
# Evaluating the tape

The tape evaluator iterates over the blocks of a tape file, in either direction,
and propagates derivatives from the operands of each block to its result or the
other way round.  The file is read in chunks of `bufsize` blocks.

The derivatives are elements of an arbitrary ring here; the partial derivatives
stored in a block are taken as elements of that ring right away.  Accesses beyond
the end of an array, of the file or of the chunk buffer, are `none`.

## Main definitions

* `Tapefile`, `Tapefile.loadfun`, `Tapefile.iterate` — the tape and the iteration.
* `Tapefile.evaluateForward`, `Tapefile.evaluateBackward` — the evaluation.

## Main results

* `Tapefile.iterate_forward`, `Tapefile.iterate_backward` — the chunks are
  invisible: the iteration visits each block once, in order.
-/

namespace Derivgrind

open ChunkedLog

/-- A block of the tape. -/
structure Block (R : Type*) where
  index1 : ULong
  index2 : ULong
  diff1 : R
  diff2 : R
  deriving DecidableEq, Repr

/-- A tape file together with the size of the chunks in which it is read. -/
structure Tapefile (R : Type*) where
  bufsize : ULong
  numberOfBlocks : ULong
  /-- The contents of the file. -/
  tape : List (Block R)
  bufsize_pos : 0 < bufsize.toNat
  /-- `tape_buf` is an array of `4*bufsize` words of eight bytes. -/
  bufsize_lt : 32 * bufsize.toNat < 2 ^ 64
  length_tape : tape.length = numberOfBlocks.toNat
  /-- A block has 32 bytes, and the number of blocks comes from the file size. -/
  size_tape : 32 * tape.length ≤ maxFileSize

namespace Tapefile

universe u

variable {R σ : Type u}

/-! ### The iteration -/

/-- `loadfun`: load `count` blocks, starting at index `i`. -/
def loadfun (t : Tapefile R) (i count : ULong) (tapeBuf : Buf (Block R)) :
    Option (Buf (Block R)) :=
  if i.toNat + count.toNat ≤ t.tape.length then
    tapeBuf.setAll? 0 ((t.tape.drop i.toNat).take count.toNat)
  else none

/-- The number of blocks in a chunk. -/
def chunkCount (t : Tapefile R) (blocks chunk : ULong) : ULong :=
  if chunk = blocks / t.bufsize + 1 - 1 then
    blocks - (blocks / t.bufsize + 1 - 1) * t.bufsize else t.bufsize

/-- The index of the first block in a chunk. -/
def chunkBegin (t : Tapefile R) (forward : Bool) (start blocks chunk : ULong) : ULong :=
  if forward then start + chunk * t.bufsize
  else start - chunk * t.bufsize - t.chunkCount blocks chunk + 1

/-- The index of a block in a chunk. -/
def blockIndex (t : Tapefile R) (forward : Bool) (start blocks chunk blockInChunk : ULong) :
    ULong :=
  if forward then start + chunk * t.bufsize + blockInChunk
  else start - chunk * t.bufsize - t.chunkCount blocks chunk + blockInChunk + 1

/-- The loop over the blocks of a chunk: from the first to the last one, or from
the last to the first one. -/
def blocksInChunk (forward : Bool) (count : ULong) : List ℕ :=
  if forward then List.range count.toNat else (List.range count.toNat).reverse

/-- Load a chunk, and apply `f` to all its blocks. -/
def iterateChunk (t : Tapefile R) (forward : Bool) (start blocks : ULong)
    (f : ULong → Block R → σ → Option σ) (s : Buf (Block R) × σ) (chunk : ℕ) :
    Option (Buf (Block R) × σ) := do
  let chunk := BitVec.ofNat 64 chunk
  let tapeBuf ← t.loadfun (t.chunkBegin forward start blocks chunk)
    (t.chunkCount blocks chunk) s.1
  let r ← (blocksInChunk forward (t.chunkCount blocks chunk)).foldlM (fun r blockInChunk => do
    let block ← tapeBuf.get? blockInChunk
    f (t.blockIndex forward start blocks chunk (BitVec.ofNat 64 blockInChunk)) block r) s.2
  some (tapeBuf, r)

/-- `iterate_impl`.  Initially, the contents of `tape_buf` are arbitrary. -/
def iterateImpl (t : Tapefile R) (forward : Bool) (start stop : ULong)
    (f : ULong → Block R → σ → Option σ) (s : Buf (Block R) × σ) :
    Option (Buf (Block R) × σ) :=
  let blocks := if forward then stop - start + 1 else start - stop + 1
  (List.range (blocks / t.bufsize + 1).toNat).foldlM (t.iterateChunk forward start blocks f) s

/-- `iterate`: apply `f` to the blocks from `start` to `stop`, in this order. -/
def iterate (t : Tapefile R) (start stop : ULong) (f : ULong → Block R → σ → Option σ)
    (s : Buf (Block R) × σ) : Option (Buf (Block R) × σ) :=
  if stop.toNat ≥ start.toNat then t.iterateImpl true start stop f s
  else t.iterateImpl false start stop f s

/-! ### The evaluation -/

variable {n : ℕ} [CommRing R] [DecidableEq R]

/-- The element of an array of derivatives at an index. -/
def derivative? (derivativevec : Fin n → R) (index : ULong) : Option R :=
  if h : index.toNat < n then some (derivativevec ⟨index.toNat, h⟩) else none

/-- `derivativevec[index] += x`. -/
def addDerivative? (derivativevec : Fin n → R) (index : ULong) (x : R) : Option (Fin n → R) :=
  if h : index.toNat < n then
    some (Function.update derivativevec ⟨index.toNat, h⟩ (derivativevec ⟨index.toNat, h⟩ + x))
  else none

/-- Indices that take part in the evaluation: neither zero nor an index given to
an unwrapped operation. -/
def isActive (index : ULong) : Bool := index ≠ 0 && index.toNat < 0x8000000000000000

/-- One operand of a block, in the reverse evaluation. -/
def backwardOperand (index operand : ULong) (diff : R) (vec : Fin n → R) :
    Option (Fin n → R) :=
  if isActive operand then do
    let bar ← derivative? vec index
    addDerivative? vec operand (bar * diff)
  else some vec

/-- The body of `evaluateBackward`. -/
def backwardBlock (index : ULong) (block : Block R) (vec : Fin n → R) :
    Option (Fin n → R) := do
  let bar ← derivative? vec index
  if bar ≠ 0 then
    let vec ← backwardOperand index block.index1 block.diff1 vec
    backwardOperand index block.index2 block.diff2 vec
  else some vec

/-- One operand of a block, in the forward evaluation. -/
def forwardOperand (index operand : ULong) (diff : R) (vec : Fin n → R) :
    Option (Fin n → R) :=
  if isActive operand then do
    let dot ← derivative? vec operand
    if dot ≠ 0 then addDerivative? vec index (dot * diff) else some vec
  else some vec

/-- The body of `evaluateForward`. -/
def forwardBlock (index : ULong) (block : Block R) (vec : Fin n → R) :
    Option (Fin n → R) := do
  let vec ← forwardOperand index block.index1 block.diff1 vec
  forwardOperand index block.index2 block.diff2 vec

/-- `evaluateBackward`. -/
def evaluateBackward (t : Tapefile R) (tapeBuf : Buf (Block R))
    (derivativevec : Fin t.numberOfBlocks.toNat → R) :
    Option (Fin t.numberOfBlocks.toNat → R) :=
  (t.iterate (t.numberOfBlocks - 1) 0 backwardBlock (tapeBuf, derivativevec)).map Prod.snd

/-- `evaluateForward`. -/
def evaluateForward (t : Tapefile R) (tapeBuf : Buf (Block R))
    (derivativevec : Fin t.numberOfBlocks.toNat → R) :
    Option (Fin t.numberOfBlocks.toNat → R) :=
  (t.iterate 0 (t.numberOfBlocks - 1) forwardBlock (tapeBuf, derivativevec)).map Prod.snd

/-! ### The chunks are invisible -/

section Chunks

variable {R σ : Type u} (t : Tapefile R) (forward : Bool) (f : ULong → Block R → σ → Option σ)

/-- The index of the `k`-th block that is visited among the `m` blocks from
`base` on. -/
def visitIndex (base m k : ℕ) : ℕ := if forward then base + k else base + m - 1 - k

/-- Visit the `k`-th block. -/
def visit (base m : ℕ) (s : σ) (k : ℕ) : Option σ :=
  t.tape[visitIndex forward base m k]?.bind fun block =>
    f (BitVec.ofNat 64 (visitIndex forward base m k)) block s

/-- Loading blocks that exist fills the front of the buffer. -/
theorem loadfun_spec {i count : ULong} (h : i.toNat + count.toNat ≤ t.tape.length)
    {buf : Buf (Block R)} (hbuf : buf.size = t.bufsize.toNat)
    (hcount : count.toNat ≤ t.bufsize.toNat) :
    ∃ buf', t.loadfun i count buf = some buf' ∧ buf'.size = t.bufsize.toNat ∧
      ∀ b < count.toNat, buf'.get? b = t.tape[i.toNat + b]? := by
  have hlen : ((t.tape.drop i.toNat).take count.toNat).length = count.toNat := by
    rw [List.length_take, List.length_drop]
    omega
  obtain ⟨buf', hset, hsize, -, hdata⟩ := Buf.setAll?_spec
    ((t.tape.drop i.toNat).take count.toNat) buf 0 (by rw [hlen, hbuf]; omega)
  refine ⟨buf', by rw [loadfun, if_pos h, hset], hsize.trans hbuf, fun b hb => ?_⟩
  have hb' := congrArg (·[b]?) hdata
  simp only [hlen, List.getElem?_map, List.getElem?_range' hb, List.getElem?_take_of_lt hb,
    List.getElem?_drop, Option.map_some, Nat.zero_add, Nat.one_mul] at hb'
  rw [Buf.get?, if_pos (by omega), hb']

/-- Folds that do the same at every element. -/
theorem foldlM_ext {α : Type} {g h : σ → α → Option σ} : ∀ (l : List α) (s : σ),
    (∀ a ∈ l, ∀ s, g s a = h s a) → l.foldlM g s = l.foldlM h s := by
  intro l
  induction l with
  | nil => intro s _; rfl
  | cons a l ih =>
    intro s hgh
    rw [List.foldlM_cons, List.foldlM_cons, hgh a List.mem_cons_self s]
    refine congrArg _ (funext fun r => ih r fun b hb => hgh b (List.mem_cons_of_mem a hb))

/-- The reversed loop over a chunk. -/
theorem reverse_range_eq_map (n : ℕ) :
    (List.range n).reverse = (List.range n).map fun j => n - 1 - j := by
  refine List.ext_getElem (by simp) fun j h₁ h₂ => ?_
  simp

/-- The blocks of a chunk in the order of the loop. -/
theorem foldlM_blocksInChunk (count : ULong) (g : σ → ℕ → Option σ) (s : σ) :
    (blocksInChunk forward count).foldlM g s = (List.range count.toNat).foldlM
      (fun s j => g s (if forward then j else count.toNat - 1 - j)) s := by
  cases forward with
  | true => rfl
  | false => simp [blocksInChunk, reverse_range_eq_map, List.foldlM_map]

section Positions

variable {base m c : ℕ} {start blocks : ULong}

/-- The position of a chunk, without wrap-around. -/
theorem toNat_chunk_mul (hm : m < 2 ^ 64) (hc : c ≤ m / t.bufsize.toNat) :
    (BitVec.ofNat 64 c * t.bufsize).toNat = c * t.bufsize.toNat :=
  Chunks.toNat_mul hm hc

theorem toNat_chunkCount (hblocks : blocks.toNat = m) (hc : c ≤ m / t.bufsize.toNat) :
    (t.chunkCount blocks (BitVec.ofNat 64 c)).toNat
      = if c = m / t.bufsize.toNat then m % t.bufsize.toNat else t.bufsize.toNat :=
  Chunks.toNat_count hblocks hc

/-- A chunk does not reach beyond the blocks that are visited. -/
theorem chunk_le (hc : c ≤ m / t.bufsize.toNat) :
    c * t.bufsize.toNat
      + (if c = m / t.bufsize.toNat then m % t.bufsize.toNat else t.bufsize.toNat) ≤ m :=
  Chunks.mul_add_length_le hc

/-- Where the iteration starts: at `base`, or at the last of `m` blocks. -/
def StartsAt (base m : ℕ) (start : ULong) : Prop :=
  if forward then start = BitVec.ofNat 64 base else start + 1 = BitVec.ofNat 64 (base + m)

/-- The index of a block in a chunk is the one of the visit. -/
theorem blockIndex_eq (hblocks : blocks.toNat = m) (hin : base + m ≤ t.tape.length)
    (hstart : StartsAt forward base m start) (hc : c ≤ m / t.bufsize.toNat) {j : ℕ}
    (hj : j < if c = m / t.bufsize.toNat then m % t.bufsize.toNat else t.bufsize.toNat) :
    t.blockIndex forward start blocks (BitVec.ofNat 64 c) (BitVec.ofNat 64
        (if forward then j
          else (t.chunkCount blocks (BitVec.ofNat 64 c)).toNat - 1 - j))
      = BitVec.ofNat 64 (visitIndex forward base m (c * t.bufsize.toNat + j)) := by
  have hm : m < 2 ^ 64 := hblocks ▸ blocks.isLt
  have hmul := toNat_chunk_mul t hm hc
  have hcount := toNat_chunkCount t hblocks hc
  have hle := t.chunk_le hc
  have hsize := t.size_tape
  rw [← hcount] at hj hle
  unfold maxFileSize at hsize
  unfold blockIndex visitIndex
  generalize BitVec.ofNat 64 c * t.bufsize = p at *
  generalize c * t.bufsize.toNat = q at *
  generalize t.chunkCount blocks (BitVec.ofNat 64 c) = d at *
  cases forward with
  | true =>
    simp only [StartsAt, if_true] at hstart ⊢
    bv_omega
  | false =>
    simp only [StartsAt, Bool.false_eq_true, if_false] at hstart ⊢
    bv_omega

/-- The first block of a chunk. -/
theorem toNat_chunkBegin (hblocks : blocks.toNat = m) (hin : base + m ≤ t.tape.length)
    (hstart : StartsAt forward base m start) (hc : c ≤ m / t.bufsize.toNat) :
    (t.chunkBegin forward start blocks (BitVec.ofNat 64 c)).toNat
      = if forward then base + c * t.bufsize.toNat else base + m - c * t.bufsize.toNat
        - (t.chunkCount blocks (BitVec.ofNat 64 c)).toNat := by
  have hm : m < 2 ^ 64 := hblocks ▸ blocks.isLt
  have hmul := toNat_chunk_mul t hm hc
  have hcount := toNat_chunkCount t hblocks hc
  have hle := t.chunk_le hc
  have hsize := t.size_tape
  rw [← hcount] at hle
  unfold maxFileSize at hsize
  unfold chunkBegin
  generalize BitVec.ofNat 64 c * t.bufsize = p at *
  generalize c * t.bufsize.toNat = q at *
  generalize t.chunkCount blocks (BitVec.ofNat 64 c) = d at *
  cases forward with
  | true =>
    simp only [StartsAt, if_true] at hstart ⊢
    bv_omega
  | false =>
    simp only [StartsAt, Bool.false_eq_true, if_false] at hstart ⊢
    bv_omega

end Positions

variable {base m c : ℕ} {start blocks : ULong}

/-- **One chunk** holds the blocks visited from the `c * bufsize`-th one on. -/
theorem iterateChunk_spec (hblocks : blocks.toNat = m) (hin : base + m ≤ t.tape.length)
    (hstart : StartsAt forward base m start) (hc : c ≤ m / t.bufsize.toNat)
    {buf : Buf (Block R)} (hbuf : buf.size = t.bufsize.toNat) :
    ∃ buf' : Buf (Block R), buf'.size = t.bufsize.toNat ∧ ∀ s : σ,
      t.iterateChunk forward start blocks f (buf, s) c
        = ((List.range (if c = m / t.bufsize.toNat then m % t.bufsize.toNat
              else t.bufsize.toNat)).foldlM
            (fun s j => t.visit forward f base m s (c * t.bufsize.toNat + j)) s).map
          (fun r => (buf', r)) := by
  have hcount := toNat_chunkCount t hblocks hc
  have hbegin := toNat_chunkBegin t forward hblocks hin hstart hc
  have hle := t.chunk_le hc
  have hmod := Nat.mod_lt m t.bufsize_pos
  have hfits : (t.chunkCount blocks (BitVec.ofNat 64 c)).toNat ≤ t.bufsize.toNat := by
    rw [hcount]
    split <;> omega
  have hload : (t.chunkBegin forward start blocks (BitVec.ofNat 64 c)).toNat
      + (t.chunkCount blocks (BitVec.ofNat 64 c)).toNat ≤ t.tape.length := by
    rw [← hcount] at hle
    rw [hbegin]
    split <;> omega
  obtain ⟨buf', hbuf', hsize', hget⟩ := t.loadfun_spec hload hbuf hfits
  refine ⟨buf', hsize', fun s => ?_⟩
  unfold iterateChunk
  simp only [hbuf', Option.bind_eq_bind, Option.bind_some, foldlM_blocksInChunk, hcount]
  rw [Option.map_eq_bind]
  congr 1
  -- both folds do the same at every position of the chunk
  refine foldlM_ext _ s fun j hj r => ?_
  have hj := List.mem_range.mp hj
  have hj' : j < (t.chunkCount blocks (BitVec.ofNat 64 c)).toNat := by rw [hcount]; exact hj
  rw [← hcount, blockIndex_eq t forward hblocks hin hstart hc hj, visit, hget _ (by split <;> omega),
    hbegin]
  rw [← hcount] at hle
  have hindex : (if forward then base + c * t.bufsize.toNat else base + m - c * t.bufsize.toNat
        - (t.chunkCount blocks (BitVec.ofNat 64 c)).toNat)
      + (if forward then j else (t.chunkCount blocks (BitVec.ofNat 64 c)).toNat - 1 - j)
      = visitIndex forward base m (c * t.bufsize.toNat + j) := by
    unfold visitIndex
    cases forward <;> simp only [if_true, Bool.false_eq_true, if_false] <;> omega
  rw [hindex]

/-- The first chunks, all of which are full. -/
theorem iterateChunks_spec (hblocks : blocks.toNat = m) (hin : base + m ≤ t.tape.length)
    (hstart : StartsAt forward base m start) {buf : Buf (Block R)}
    (hbuf : buf.size = t.bufsize.toNat) : ∀ p ≤ m / t.bufsize.toNat,
    ∃ buf' : Buf (Block R), buf'.size = t.bufsize.toNat ∧ ∀ s : σ,
      (List.range p).foldlM (t.iterateChunk forward start blocks f) (buf, s)
        = ((List.range (p * t.bufsize.toNat)).foldlM (t.visit forward f base m) s).map
          (fun r => (buf', r)) := by
  intro p
  induction p with
  | zero => intro _; exact ⟨buf, hbuf, fun s => by simp⟩
  | succ p ih =>
    intro hp
    obtain ⟨buf₁, hbuf₁, hfirst⟩ := ih (by omega)
    obtain ⟨buf₂, hbuf₂, hchunk⟩ :=
      t.iterateChunk_spec forward f hblocks hin hstart (c := p) (by omega) hbuf₁
    refine ⟨buf₂, hbuf₂, fun s => ?_⟩
    rw [List.range_succ, List.foldlM_append, hfirst, Nat.add_mul, Nat.one_mul, List.range_add,
      List.foldlM_append]
    cases hvisit : (List.range (p * t.bufsize.toNat)).foldlM (t.visit forward f base m) s with
    | none => rfl
    | some r =>
      have hne : p ≠ m / t.bufsize.toNat := by omega
      simp only [Option.map_some, Option.bind_eq_bind, Option.bind_some, List.foldlM_cons,
        List.foldlM_nil, hchunk r, if_neg hne, List.foldlM_map]
      exact bind_pure (m := Option) _

/-- **The iteration visits the blocks one after the other**, whatever the size of
the chunks and the previous contents of the buffer. -/
theorem iterateImpl_spec {stop : ULong}
    (hblocks : (if forward then stop - start + 1 else start - stop + 1).toNat = m)
    (hin : base + m ≤ t.tape.length) (hstart : StartsAt forward base m start)
    {buf : Buf (Block R)} (hbuf : buf.size = t.bufsize.toNat) (s : σ) :
    (t.iterateImpl forward start stop f (buf, s)).map Prod.snd
      = (List.range m).foldlM (t.visit forward f base m) s := by
  unfold iterateImpl
  generalize (if forward then stop - start + 1 else start - stop + 1) = blocks at *
  dsimp only
  have hsize := t.size_tape
  unfold maxFileSize at hsize
  have hdiv : m / t.bufsize.toNat ≤ m := Nat.div_le_self _ _
  have hchunks : (blocks / t.bufsize + 1).toNat = m / t.bufsize.toNat + 1 := by
    rw [BitVec.toNat_add, BitVec.toNat_udiv, hblocks]
    exact Nat.mod_eq_of_lt (by simp; omega)
  obtain ⟨buf₁, hbuf₁, hfirst⟩ :=
    t.iterateChunks_spec forward f hblocks hin hstart hbuf _ le_rfl
  obtain ⟨buf₂, -, hlast⟩ := t.iterateChunk_spec forward f hblocks hin hstart le_rfl hbuf₁
  have hsplit : List.range m = List.range (m / t.bufsize.toNat * t.bufsize.toNat)
      ++ (List.range (m % t.bufsize.toNat)).map (m / t.bufsize.toNat * t.bufsize.toNat + ·) := by
    rw [← List.range_add, Nat.div_add_mod']
  rw [hchunks, List.range_succ, List.foldlM_append, hfirst, hsplit, List.foldlM_append]
  cases hvisit : (List.range (m / t.bufsize.toNat * t.bufsize.toNat)).foldlM
      (t.visit forward f base m) s with
  | none => rfl
  | some r =>
    simp only [Option.map_some, Option.bind_eq_bind, Option.bind_some, List.foldlM_cons,
      List.foldlM_nil, hlast r, if_true, List.foldlM_map]
    cases List.foldlM (fun s j => t.visit forward f base m s
      (m / t.bufsize.toNat * t.bufsize.toNat + j)) r (List.range (m % t.bufsize.toNat)) <;> rfl

end Chunks

/-! ### Whole tapes -/

section Whole

variable {R σ : Type u} (t : Tapefile R) (f : ULong → Block R → σ → Option σ)

/-- The block at a position. -/
def blockAt (i : Fin t.numberOfBlocks.toNat) : Block R :=
  t.tape.get (i.cast t.length_tape.symm)

/-- Visit the block at a position. -/
def visitBlock (s : σ) (i : Fin t.numberOfBlocks.toNat) : Option σ :=
  f (BitVec.ofNat 64 i) (t.blockAt i) s

/-- The visits of an iteration, as positions of the tape. -/
theorem foldlM_visit {forward : Bool} {base m : ℕ} (l : List (Fin t.numberOfBlocks.toNat))
    (s : σ) (hl : (List.range m).map (visitIndex forward base m) = l.map Fin.val) :
    (List.range m).foldlM (t.visit forward f base m) s = l.foldlM (t.visitBlock f) s := by
  let visitNat : σ → ℕ → Option σ := fun s i => t.tape[i]?.bind fun block =>
    f (BitVec.ofNat 64 i) block s
  have hnat : (List.range m).foldlM (t.visit forward f base m) s
      = ((List.range m).map (visitIndex forward base m)).foldlM visitNat s := by
    rw [List.foldlM_map]
    rfl
  rw [hnat, hl, List.foldlM_map]
  refine foldlM_ext _ s fun i _ r => ?_
  have hi : i.val < t.tape.length := by rw [t.length_tape]; exact i.isLt
  simp only [visitNat, visitBlock, List.getElem?_eq_getElem hi]
  rfl

/-- **Iterating over the whole tape**, from the first to the last block. -/
theorem iterate_forward {buf : Buf (Block R)} (hbuf : buf.size = t.bufsize.toNat) (s : σ) :
    (t.iterate 0 (t.numberOfBlocks - 1) f (buf, s)).map Prod.snd
      = (List.finRange t.numberOfBlocks.toNat).foldlM (t.visitBlock f) s := by
  have hin : 0 + t.numberOfBlocks.toNat ≤ t.tape.length := by rw [t.length_tape]; omega
  have hblocks : (if true then t.numberOfBlocks - 1 - 0 + 1 else 0 - (t.numberOfBlocks - 1) + 1
      : ULong).toNat = t.numberOfBlocks.toNat := by
    simp only [if_true]
    bv_omega
  have hstart : StartsAt true 0 t.numberOfBlocks.toNat 0 := rfl
  rw [iterate, if_pos (by simp), t.iterateImpl_spec true f hblocks hin hstart hbuf]
  refine t.foldlM_visit f _ s ?_
  rw [List.map_coe_finRange_eq_range]
  refine (List.map_congr_left fun k _ => ?_).trans (List.map_id _)
  simp [visitIndex]

/-- **Iterating over the whole tape**, from the last to the first block.  For a
single block, `iterate` chooses the forward direction. -/
theorem iterate_backward {buf : Buf (Block R)} (hbuf : buf.size = t.bufsize.toNat) (s : σ) :
    (t.iterate (t.numberOfBlocks - 1) 0 f (buf, s)).map Prod.snd
      = (List.finRange t.numberOfBlocks.toNat).reverse.foldlM (t.visitBlock f) s := by
  have hin : 0 + t.numberOfBlocks.toNat ≤ t.tape.length := by rw [t.length_tape]; omega
  have hrange : (List.finRange t.numberOfBlocks.toNat).reverse.map Fin.val
      = (List.range t.numberOfBlocks.toNat).map
        (visitIndex false 0 t.numberOfBlocks.toNat) := by
    rw [List.map_reverse, List.map_coe_finRange_eq_range, reverse_range_eq_map]
    refine List.map_congr_left fun k _ => ?_
    simp [visitIndex]
  by_cases hone : t.numberOfBlocks - 1 = 0
  · have hn : t.numberOfBlocks = 1 := by bv_omega
    have hstart : StartsAt true 0 1 0 := rfl
    rw [iterate, hone, if_pos le_rfl,
      t.iterateImpl_spec true f (m := 1) rfl (by simpa [hn] using hin) hstart hbuf]
    refine t.foldlM_visit f _ s ?_
    rw [hrange, hn]
    rfl
  · have hgt : ¬ (0 : ULong).toNat ≥ (t.numberOfBlocks - 1).toNat := by bv_omega
    have hblocks : (if false then 0 - (t.numberOfBlocks - 1) + 1
        else t.numberOfBlocks - 1 - 0 + 1 : ULong).toNat = t.numberOfBlocks.toNat := by
      simp only [Bool.false_eq_true, if_false]
      bv_omega
    have hstart : StartsAt false 0 t.numberOfBlocks.toNat (t.numberOfBlocks - 1) := by
      simp only [StartsAt, Bool.false_eq_true, if_false]
      bv_omega
    rw [iterate, if_neg hgt, t.iterateImpl_spec false f hblocks hin hstart hbuf]
    exact t.foldlM_visit f _ s hrange.symm

end Whole

end Tapefile

end Derivgrind
