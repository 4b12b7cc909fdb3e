import Derivgrind.Lib.Loop
import Derivgrind.Tape.Eval
import Mathlib.Tactic.Ring

/-!
# The loops of the tape iteration

`Tapefile::iterate_impl` consists of a loop over chunks and of a loop over the blocks of
a chunk, whose positions are computed modulo `2^64`.  The counter of the inner loop is
signed, so that a reverse loop ends after the block number zero.

The model records what the loops do: calls of `loadfun` and of `fun`, and accesses to
`tape_buf`.

## Main definitions

* `IterEvent` — what the loops do.
* `TapeLoop.iterate` — the function `iterate` with its loops.
* `TapeLoop.Loads` — `loadfun` loads the blocks of a tape.

## Main results

* `TapeLoop.iterate_visits` — **each block is visited once**, in order.
* `TapeLoop.iterate_refines` — the loops do what `Tapefile.iterate` does.
-/

namespace Derivgrind

/-- The events that `eventhandler` is informed of. -/
inductive TapefileEvent
  | evaluateChunkBegin
  | evaluateChunkEnd
  deriving DecidableEq, Repr

/-- What an iteration does. -/
inductive IterEvent
  /-- `loadfun(i,count,tape_buf)`. -/
  | load (i count : ULong)
  | handler (event : TapefileEvent)
  /-- A read access to the given element of `tape_buf`. -/
  | access (subscript : ℤ)
  /-- `fun(index,index1,index2,diff1,diff2)`, with the words of the block. -/
  | call (index : ULong) (block : Block ULong)
  deriving DecidableEq, Repr

namespace TapeLoop

/-! ### The loops -/

section Code

variable (bufsize : ULong) (loadfun : ULong → ULong → (ℤ → ULong) → ℤ → ULong)
  (eventhandler : Bool) (forward : Bool)

/-- `number_of_blocks_in_subtape`. -/
def numberOfBlocks (start stop : ULong) : ULong :=
  if forward then stop - start + 1 else start - stop + 1

/-- `number_of_chunks_in_subtape`. -/
def numberOfChunks (blocks : ULong) : ULong := blocks / bufsize + 1

/-- `chunk_count`. -/
def chunkCount (blocks chunk : ULong) : ULong :=
  if chunk = numberOfChunks bufsize blocks - 1 then
    blocks - (numberOfChunks bufsize blocks - 1) * bufsize
  else bufsize

/-- `chunk_begin`. -/
def chunkBegin (start blocks chunk : ULong) : ULong :=
  if forward then start + chunk * bufsize
  else start - chunk * bufsize - chunkCount bufsize blocks chunk + 1

/-- `index`. -/
def blockIndex (start blocks chunk blockInChunk : ULong) : ULong :=
  if forward then start + chunk * bufsize + blockInChunk
  else start - chunk * bufsize - chunkCount bufsize blocks chunk + blockInChunk + 1

/-- The events for a block.  Subscripts do not overflow as long as they are in the array. -/
def blockEvents (tapeBuf : ℤ → ULong) (index : ULong) (blockInChunk : BitVec 64) :
    List IterEvent :=
  let subscript := 4 * blockInChunk.toInt
  [.access subscript, .access (subscript + 1), .access (subscript + 2), .access (subscript + 3),
    .call index ⟨tapeBuf subscript, tapeBuf (subscript + 1), tapeBuf (subscript + 2),
      tapeBuf (subscript + 3)⟩]

/-- The condition of the loop over the blocks of a chunk.  In the comparison with the unsigned
`chunk_count`, the signed counter is converted. -/
def blockCond (count : ULong) (s : BitVec 64 × List IterEvent) : Bool :=
  if forward then s.1.toNat < count.toNat else 0 ≤ s.1.toInt

/-- The body of the loop over the blocks of a chunk. -/
def blockBody (start blocks chunk : ULong) (tapeBuf : ℤ → ULong)
    (s : BitVec 64 × List IterEvent) : Option (BitVec 64 × List IterEvent) :=
  some (s.1 + (if forward then 1 else -1),
    s.2 ++ blockEvents tapeBuf (blockIndex bufsize forward start blocks chunk s.1) s.1)

/-- The state of the loop over the chunks. -/
structure ChunkState where
  chunk : ULong
  tapeBuf : ℤ → ULong
  events : List IterEvent

/-- A call of `eventhandler`, if there is one. -/
def handlerEvents (event : TapefileEvent) : List IterEvent :=
  if eventhandler then [.handler event] else []

/-- The body of the loop over the chunks. -/
def chunkBody (fuel : ℕ) (start blocks : ULong) (s : ChunkState) : Option ChunkState := do
  let count := chunkCount bufsize blocks s.chunk
  let i := chunkBegin bufsize forward start blocks s.chunk
  let tapeBuf := loadfun i count s.tapeBuf
  let (_, events) ← Loop.run (blockCond forward count)
    (blockBody bufsize forward start blocks s.chunk tapeBuf) fuel
    (if forward then 0 else count - 1,
      s.events ++ .load i count :: handlerEvents eventhandler .evaluateChunkBegin)
  some ⟨s.chunk + 1, tapeBuf, events ++ handlerEvents eventhandler .evaluateChunkEnd⟩

/-- `iterate_impl`. -/
def iterateImpl (fuel : ℕ) (start stop : ULong) (tapeBuf : ℤ → ULong) :
    Option (List IterEvent) :=
  let blocks := numberOfBlocks forward start stop
  (Loop.run (fun s => s.chunk.toNat < (numberOfChunks bufsize blocks).toNat)
    (chunkBody bufsize loadfun eventhandler forward fuel start blocks) fuel ⟨0, tapeBuf, []⟩).map
    ChunkState.events

/-- `iterate`. -/
def iterate (fuel : ℕ) (start stop : ULong) (tapeBuf : ℤ → ULong) : Option (List IterEvent) :=
  if stop.toNat ≥ start.toNat then
    iterateImpl bufsize loadfun eventhandler true fuel start stop tapeBuf
  else iterateImpl bufsize loadfun eventhandler false fuel start stop tapeBuf

end Code

/-! ### One chunk -/

section Chunk

variable {bufsize : ULong} {forward : Bool} {start blocks chunk count : ULong}
  {tapeBuf : ℤ → ULong}

/-- The counter in the `j`-th round of the loop over the blocks of a chunk. -/
def blockCounter (forward : Bool) (count : ULong) (j : ℕ) : BitVec 64 :=
  if forward then BitVec.ofNat 64 j else count - 1 - BitVec.ofNat 64 j

/-- The position in the chunk of the block that is visited in the `j`-th round. -/
def blockPosition (forward : Bool) (n j : ℕ) : ℕ := if forward then j else n - 1 - j

theorem blockCounter_succ (count : ULong) (j : ℕ) :
    blockCounter forward count (j + 1)
      = blockCounter forward count j + (if forward then 1 else -1) := by
  cases forward with
  | true => simp [blockCounter, BitVec.ofNat_add]
  | false =>
    simp only [blockCounter, Bool.false_eq_true, if_false]
    bv_omega

/-- The counter is small enough to be nonnegative. -/
theorem toInt_blockCounter (forward : Bool) (hcount : count.toNat ≤ 2 ^ 63) {j : ℕ} (hj : j < count.toNat) :
    (blockCounter forward count j).toInt = blockPosition forward count.toNat j := by
  have hnat : (blockCounter forward count j).toNat = blockPosition forward count.toNat j := by
    cases forward with
    | true =>
      simp only [blockCounter, blockPosition, if_true, BitVec.toNat_ofNat]
      omega
    | false =>
      simp only [blockCounter, blockPosition, Bool.false_eq_true, if_false]
      bv_omega
  have hlt : blockPosition forward count.toNat j < count.toNat := by
    unfold blockPosition
    split <;> omega
  rw [BitVec.toInt_eq_toNat_cond, if_pos (by omega), hnat]

theorem blockCond_blockCounter (hcount : count.toNat ≤ 2 ^ 63) {j : ℕ} (hj : j ≤ count.toNat)
    (events : List IterEvent) :
    blockCond forward count (blockCounter forward count j, events) = decide (j < count.toNat) := by
  cases forward with
  | true =>
    have hmod : j % 2 ^ 64 = j := Nat.mod_eq_of_lt (by omega)
    simp only [blockCond, blockCounter, if_true, BitVec.toNat_ofNat, hmod]
  | false =>
    rcases hj.lt_or_eq with hlt | rfl
    · simp [blockCond, toInt_blockCounter false hcount hlt, hlt]
    · have hend : blockCounter false count count.toNat = -1 := by
        simp only [blockCounter, Bool.false_eq_true, if_false]
        bv_omega
      rw [hend]
      simp [blockCond]

/-- **The loop over the blocks of a chunk** visits all of them. -/
theorem run_blocks (hcount : count.toNat ≤ 2 ^ 63) {fuel : ℕ} (hfuel : count.toNat < fuel)
    (events : List IterEvent) :
    Loop.run (blockCond forward count) (blockBody bufsize forward start blocks chunk tapeBuf) fuel
        (if forward then 0 else count - 1, events)
      = some (blockCounter forward count count.toNat, events ++
        (List.range count.toNat).flatMap fun j => blockEvents tapeBuf
          (blockIndex bufsize forward start blocks chunk (blockCounter forward count j))
          (blockCounter forward count j)) := by
  let f : ℕ → BitVec 64 × List IterEvent := fun n => (blockCounter forward count n, events ++
    (List.range n).flatMap fun j => blockEvents tapeBuf
      (blockIndex bufsize forward start blocks chunk (blockCounter forward count j))
      (blockCounter forward count j))
  have hstart : (if forward then 0 else count - 1, events) = f 0 := by
    cases forward <;> simp [f, blockCounter]
  rw [hstart]
  refine Loop.run_of_states f (fun j hj => ⟨?_, ?_⟩) ?_ hfuel
  · exact (blockCond_blockCounter hcount hj.le _).trans (decide_eq_true hj)
  · simp only [f, blockBody, blockCounter_succ, List.range_succ, List.flatMap_append,
      List.append_assoc, List.flatMap_cons, List.flatMap_nil, List.append_nil]
  · exact (blockCond_blockCounter hcount le_rfl _).trans (by simp)

end Chunk

/-! ### All chunks -/

section Chunks

variable (bufsize : ULong) (loadfun : ULong → ULong → (ℤ → ULong) → ℤ → ULong)
  (eventhandler : Bool) (forward : Bool) (start blocks : ULong) (tapeBuf : ℤ → ULong)

/-- The contents of the buffer when `c` chunks have been loaded. -/
def bufAt : ℕ → ℤ → ULong
  | 0 => tapeBuf
  | c + 1 => loadfun (chunkBegin bufsize forward start blocks (BitVec.ofNat 64 c))
      (chunkCount bufsize blocks (BitVec.ofNat 64 c)) (bufAt c)

/-- The block at a position of the buffer. -/
def blockOf (buf : ℤ → ULong) (b : ℕ) : Block ULong :=
  ⟨buf (4 * b), buf (4 * b + 1), buf (4 * b + 2), buf (4 * b + 3)⟩

/-- The events for the blocks of a chunk. -/
def blocksEvents (c : ℕ) : List IterEvent :=
  let count := chunkCount bufsize blocks (BitVec.ofNat 64 c)
  (List.range count.toNat).flatMap fun j => blockEvents
    (bufAt bufsize loadfun forward start blocks tapeBuf (c + 1))
    (blockIndex bufsize forward start blocks (BitVec.ofNat 64 c) (blockCounter forward count j))
    (blockCounter forward count j)

/-- The events for a chunk. -/
def chunkEvents (c : ℕ) : List IterEvent :=
  .load (chunkBegin bufsize forward start blocks (BitVec.ofNat 64 c))
      (chunkCount bufsize blocks (BitVec.ofNat 64 c)) ::
    (handlerEvents eventhandler .evaluateChunkBegin ++
      (blocksEvents bufsize loadfun forward start blocks tapeBuf c ++
        handlerEvents eventhandler .evaluateChunkEnd))

variable {bufsize blocks} {m : ℕ}

/-- **The loop over the chunks** processes all of them. -/
theorem run_chunks (hblocks : blocks.toNat = m) (hm : m ≤ 2 ^ 63) {fuel : ℕ}
    (hfuel : m + 1 < fuel) :
    (Loop.run (fun s => s.chunk.toNat < (numberOfChunks bufsize blocks).toNat)
      (chunkBody bufsize loadfun eventhandler forward fuel start blocks) fuel
        ⟨0, tapeBuf, []⟩).map ChunkState.events
      = some ((List.range (m / bufsize.toNat + 1)).flatMap
        (chunkEvents bufsize loadfun eventhandler forward start blocks tapeBuf)) := by
  have hdiv : m / bufsize.toNat ≤ m := Nat.div_le_self _ _
  have hchunks : (numberOfChunks bufsize blocks).toNat = m / bufsize.toNat + 1 := by
    rw [numberOfChunks, BitVec.toNat_add, BitVec.toNat_udiv, hblocks]
    exact Nat.mod_eq_of_lt (by simp; omega)
  let f : ℕ → ChunkState := fun c => ⟨BitVec.ofNat 64 c,
    bufAt bufsize loadfun forward start blocks tapeBuf c,
    (List.range c).flatMap
      (chunkEvents bufsize loadfun eventhandler forward start blocks tapeBuf)⟩
  refine congrArg (Option.map ChunkState.events) (Loop.run_of_states (n := m / bufsize.toNat + 1) f
    (fun c hc => ⟨?_, ?_⟩) ?_ (by omega))
  · have hmod : c % 2 ^ 64 = c := Nat.mod_eq_of_lt (by omega)
    simp only [f, BitVec.toNat_ofNat, hmod, hchunks, decide_eq_true_eq]
    exact hc
  · -- the blocks of the chunk
    have hcount := Chunks.toNat_count hblocks (show c ≤ m / bufsize.toNat by omega)
    have hle := Chunks.mul_add_length_le (show c ≤ m / bufsize.toNat by omega)
    change (chunkCount bufsize blocks (BitVec.ofNat 64 c)).toNat = _ at hcount
    rw [← hcount] at hle
    simp only [chunkBody, f]
    rw [run_blocks (by omega) (by omega)]
    simp only [Option.bind_eq_bind, Option.bind_some, List.range_succ, List.flatMap_append,
      List.flatMap_singleton, chunkEvents, blocksEvents, bufAt, BitVec.ofNat_add, List.append_assoc,
      List.cons_append]
    rfl
  · have hmod : (m / bufsize.toNat + 1) % 2 ^ 64 = m / bufsize.toNat + 1 :=
      Nat.mod_eq_of_lt (by omega)
    simp only [f, BitVec.toNat_ofNat, hmod, hchunks, Nat.lt_irrefl, decide_false]

end Chunks

/-! ### The calls -/

/-- The calls of `fun`. -/
def calls (events : List IterEvent) : List (ULong × Block ULong) :=
  events.filterMap fun event =>
    match event with
    | .call index block => some (index, block)
    | _ => none

@[simp] theorem calls_append (es es' : List IterEvent) : calls (es ++ es') = calls es ++ calls es' :=
  List.filterMap_append

theorem calls_flatMap {α : Type} (g : α → List IterEvent) (l : List α) :
    calls (l.flatMap g) = l.flatMap fun a => calls (g a) := by
  induction l with
  | nil => rfl
  | cons a l ih => rw [List.flatMap_cons, List.flatMap_cons, calls_append, ih]

@[simp] theorem calls_handlerEvents (eventhandler : Bool) (event : TapefileEvent) :
    calls (handlerEvents eventhandler event) = [] := by
  cases eventhandler <;> rfl

section Calls

variable {bufsize : ULong} (loadfun : ULong → ULong → (ℤ → ULong) → ℤ → ULong)
  (eventhandler : Bool) {forward : Bool} {start blocks : ULong} (tapeBuf : ℤ → ULong) {m c j : ℕ}

/-- The index of the `v`-th block that is visited. -/
def visitIndex (forward : Bool) (start : ULong) (v : ℕ) : ULong :=
  if forward then start + BitVec.ofNat 64 v else start - BitVec.ofNat 64 v

theorem blockIndex_eq_visitIndex (c j : ℕ) :
    blockIndex bufsize forward start blocks (BitVec.ofNat 64 c)
        (blockCounter forward (chunkCount bufsize blocks (BitVec.ofNat 64 c)) j)
      = visitIndex forward start (c * bufsize.toNat + j) := by
  have hmul : BitVec.ofNat 64 (c * bufsize.toNat) = BitVec.ofNat 64 c * bufsize := by
    rw [BitVec.ofNat_mul, BitVec.ofNat_toNat, BitVec.setWidth_eq]
  simp only [visitIndex, BitVec.ofNat_add, hmul]
  cases forward with
  | true =>
    simp only [blockIndex, blockCounter, if_true]
    rw [BitVec.add_assoc]
  | false =>
    simp only [blockIndex, blockCounter, Bool.false_eq_true, if_false]
    ring

theorem calls_chunkEvents
    (hcount : (chunkCount bufsize blocks (BitVec.ofNat 64 c)).toNat ≤ 2 ^ 63) :
    calls (chunkEvents bufsize loadfun eventhandler forward start blocks tapeBuf c)
      = (List.range (chunkCount bufsize blocks (BitVec.ofNat 64 c)).toNat).map fun j =>
        (visitIndex forward start (c * bufsize.toNat + j),
          blockOf (bufAt bufsize loadfun forward start blocks tapeBuf (c + 1))
            (blockPosition forward (chunkCount bufsize blocks (BitVec.ofNat 64 c)).toNat j)) := by
  have hload : ∀ i count es, calls (.load i count :: es) = calls es := fun _ _ _ => rfl
  rw [chunkEvents, hload, calls_append, calls_append, calls_handlerEvents, calls_handlerEvents,
    List.nil_append, List.append_nil, blocksEvents, calls_flatMap, List.map_eq_flatMap]
  refine List.flatMap_congr fun j hj => ?_
  have hj := List.mem_range.mp hj
  rw [blockIndex_eq_visitIndex]
  simp only [blockEvents, toInt_blockCounter forward hcount hj]
  rfl

/-- What the events of a chunk are. -/
theorem mem_chunkEvents {event : IterEvent}
    (h : event ∈ chunkEvents bufsize loadfun eventhandler forward start blocks tapeBuf c) :
    event = .load (chunkBegin bufsize forward start blocks (BitVec.ofNat 64 c))
        (chunkCount bufsize blocks (BitVec.ofNat 64 c)) ∨
      (∃ e, event = .handler e) ∨
      ∃ j < (chunkCount bufsize blocks (BitVec.ofNat 64 c)).toNat, event ∈ blockEvents
        (bufAt bufsize loadfun forward start blocks tapeBuf (c + 1))
        (visitIndex forward start (c * bufsize.toNat + j))
        (blockCounter forward (chunkCount bufsize blocks (BitVec.ofNat 64 c)) j) := by
  have hhandler : ∀ e', event ∈ handlerEvents eventhandler e' → ∃ e, event = .handler e := by
    intro e' he
    unfold handlerEvents at he
    split at he
    · exact ⟨e', List.mem_singleton.mp he⟩
    · exact absurd he List.not_mem_nil
  rcases List.mem_cons.mp h with rfl | h
  · exact .inl rfl
  · refine .inr ?_
    rcases List.mem_append.mp h with h | h
    · exact .inl (hhandler _ h)
    · rcases List.mem_append.mp h with h | h
      · obtain ⟨j, hj, hmem⟩ := List.mem_flatMap.mp h
        rw [blockIndex_eq_visitIndex] at hmem
        exact .inr ⟨j, List.mem_range.mp hj, hmem⟩
      · exact .inl (hhandler _ h)

/-- If there are blocks to visit, these are the blocks from `base` on, upwards or downwards. -/
def Covers (forward : Bool) (start : ULong) (base m : ℕ) : Prop :=
  0 < m → if forward then start.toNat = base else start.toNat + 1 = base + m

theorem toNat_visitIndex {base v : ℕ} (hcovers : Covers forward start base m)
    (hlt : base + m ≤ 2 ^ 63) (hv : v < m) :
    (visitIndex forward start v).toNat = if forward then base + v else base + m - 1 - v := by
  have hcovers := hcovers (by omega)
  cases forward with
  | true =>
    simp only [visitIndex, if_true] at hcovers ⊢
    bv_omega
  | false =>
    simp only [visitIndex, Bool.false_eq_true, if_false] at hcovers ⊢
    bv_omega

/-- The blocks of a chunk are among those that are visited. -/
theorem toNat_chunkBegin {base : ℕ} (hblocks : blocks.toNat = m)
    (hcovers : Covers forward start base m) (hlt : base + m ≤ 2 ^ 63)
    (hc : c ≤ m / bufsize.toNat) (hne : 0 < m) :
    (chunkBegin bufsize forward start blocks (BitVec.ofNat 64 c)).toNat
      = if forward then base + c * bufsize.toNat
        else base + m - (c * bufsize.toNat + Chunks.length m bufsize.toNat c) := by
  have hm : m < 2 ^ 64 := hblocks ▸ blocks.isLt
  have hcovers := hcovers hne
  have hmul := Chunks.toNat_mul hm hc
  have hcount : (chunkCount bufsize blocks (BitVec.ofNat 64 c)).toNat = _ :=
    Chunks.toNat_count hblocks hc
  have hle := Chunks.mul_add_length_le hc
  rw [← hcount] at hle ⊢
  unfold chunkBegin
  generalize BitVec.ofNat 64 c * bufsize = p at *
  generalize c * bufsize.toNat = q at *
  generalize chunkCount bufsize blocks (BitVec.ofNat 64 c) = d at *
  cases forward with
  | true =>
    simp only [if_true] at hcovers ⊢
    bv_omega
  | false =>
    simp only [Bool.false_eq_true, if_false] at hcovers ⊢
    bv_omega

end Calls

/-! ### Each block is visited once -/

/-- `loadfun` loads blocks of the tape, for ranges of the given blocks. -/
def Loads (loadfun : ULong → ULong → (ℤ → ULong) → ℤ → ULong) (tape : ℕ → Block ULong)
    (order : List ℕ) : Prop :=
  ∀ i count buf, (∀ k < count.toNat, i.toNat + k ∈ order) → ∀ j < count.toNat,
    blockOf (loadfun i count buf) j = tape (i.toNat + j)

/-- What an iteration over the given blocks does. -/
structure Visits (bufsize : ULong) (loadfun : ULong → ULong → (ℤ → ULong) → ℤ → ULong)
    (order : List ℕ) (events : List IterEvent) : Prop where
  /-- `fun` is called for these blocks, in this order. -/
  indices : (calls events).map (fun call => call.1.toNat) = order
  /-- The words of the blocks are passed. -/
  words : ∀ tape, Loads loadfun tape order → ∀ call ∈ calls events, call.2 = tape call.1.toNat
  /-- Only these blocks are loaded, at most `bufsize` many at once. -/
  loads : ∀ i count, .load i count ∈ events →
    count.toNat ≤ bufsize.toNat ∧ ∀ k < count.toNat, i.toNat + k ∈ order
  /-- Accesses are inside the buffer. -/
  accesses : ∀ subscript, .access subscript ∈ events →
    0 ≤ subscript ∧ subscript < 4 * bufsize.toNat

/-- The blocks from `base` on, upwards or downwards. -/
def orderOf (forward : Bool) (base m : ℕ) : List ℕ :=
  (List.range m).map fun v => if forward then base + v else base + m - 1 - v

theorem mem_orderOf {forward : Bool} {base m i : ℕ} :
    i ∈ orderOf forward base m ↔ base ≤ i ∧ i < base + m := by
  rw [orderOf, List.mem_map]
  constructor
  · rintro ⟨v, hv, rfl⟩
    have hv := List.mem_range.mp hv
    split <;> omega
  · rintro ⟨hle, hlt⟩
    refine ⟨if forward then i - base else base + m - 1 - i, List.mem_range.mpr ?_, ?_⟩
    · split <;> omega
    · split <;> omega

section Visits

variable {bufsize : ULong} (loadfun : ULong → ULong → (ℤ → ULong) → ℤ → ULong)
  (eventhandler : Bool) {forward : Bool} {start blocks : ULong} (tapeBuf : ℤ → ULong)
  {base m c j : ℕ}

theorem toNat_chunkCount (hblocks : blocks.toNat = m) (hc : c ≤ m / bufsize.toNat) :
    (chunkCount bufsize blocks (BitVec.ofNat 64 c)).toNat = Chunks.length m bufsize.toNat c :=
  Chunks.toNat_count hblocks hc

theorem chunkCount_le (hblocks : blocks.toNat = m) (hlt : base + m ≤ 2 ^ 63)
    (hc : c ≤ m / bufsize.toNat) :
    (chunkCount bufsize blocks (BitVec.ofNat 64 c)).toNat ≤ 2 ^ 63 := by
  have hle := Chunks.mul_add_length_le hc
  rw [toNat_chunkCount hblocks hc]
  omega

/-- The indices of all calls. -/
theorem map_calls (hblocks : blocks.toNat = m) (hcovers : Covers forward start base m)
    (hlt : base + m ≤ 2 ^ 63) :
    (calls ((List.range (m / bufsize.toNat + 1)).flatMap
        (chunkEvents bufsize loadfun eventhandler forward start blocks tapeBuf))).map
      (fun call => call.1.toNat) = orderOf forward base m := by
  have horder : orderOf forward base m
      = (List.range m).map fun v => (visitIndex forward start v).toNat :=
    List.map_congr_left fun v hv => (toNat_visitIndex hcovers hlt (List.mem_range.mp hv)).symm
  rw [horder, ← Chunks.flatMap_range m bufsize.toNat, calls_flatMap, List.map_flatMap,
    List.map_flatMap]
  refine List.flatMap_congr fun c hc => ?_
  have hc : c ≤ m / bufsize.toNat := Nat.lt_succ_iff.mp (List.mem_range.mp hc)
  rw [calls_chunkEvents loadfun eventhandler tapeBuf (chunkCount_le hblocks hlt hc),
    toNat_chunkCount hblocks hc, List.map_map, List.map_map]
  rfl

/-- The blocks of a chunk are visited. -/
theorem add_mem_orderOf (hblocks : blocks.toNat = m) (hcovers : Covers forward start base m)
    (hlt : base + m ≤ 2 ^ 63) (hc : c ≤ m / bufsize.toNat) {k : ℕ}
    (hk : k < (chunkCount bufsize blocks (BitVec.ofNat 64 c)).toNat) :
    (chunkBegin bufsize forward start blocks (BitVec.ofNat 64 c)).toNat + k
      ∈ orderOf forward base m := by
  have hle := Chunks.mul_add_length_le hc
  rw [toNat_chunkCount hblocks hc] at hk
  have hbegin := toNat_chunkBegin hblocks hcovers hlt hc (by omega)
  rw [mem_orderOf, hbegin]
  split <;> omega

theorem blockPosition_lt (forward : Bool) {n : ℕ} (hj : j < n) : blockPosition forward n j < n := by
  unfold blockPosition
  split <;> omega

/-- The index of a call is the one of the block in the chunk. -/
theorem toNat_chunkBegin_add (hblocks : blocks.toNat = m) (hcovers : Covers forward start base m)
    (hlt : base + m ≤ 2 ^ 63) (hc : c ≤ m / bufsize.toNat)
    (hj : j < (chunkCount bufsize blocks (BitVec.ofNat 64 c)).toNat) :
    (chunkBegin bufsize forward start blocks (BitVec.ofNat 64 c)).toNat
        + blockPosition forward (chunkCount bufsize blocks (BitVec.ofNat 64 c)).toNat j
      = (visitIndex forward start (c * bufsize.toNat + j)).toNat := by
  have hle := Chunks.mul_add_length_le hc
  rw [toNat_chunkCount hblocks hc] at hj ⊢
  rw [toNat_chunkBegin hblocks hcovers hlt hc (by omega), toNat_visitIndex hcovers hlt (by omega),
    blockPosition]
  split <;> omega

/-- **The loop over the chunks visits each block once.** -/
theorem visits_chunks (hpos : 0 < bufsize.toNat) (hblocks : blocks.toNat = m)
    (hcovers : Covers forward start base m) (hlt : base + m ≤ 2 ^ 63) :
    Visits bufsize loadfun (orderOf forward base m)
      ((List.range (m / bufsize.toNat + 1)).flatMap
        (chunkEvents bufsize loadfun eventhandler forward start blocks tapeBuf)) := by
  have hevent : ∀ {event}, event ∈ (List.range (m / bufsize.toNat + 1)).flatMap
      (chunkEvents bufsize loadfun eventhandler forward start blocks tapeBuf) →
      ∃ c ≤ m / bufsize.toNat,
        event ∈ chunkEvents bufsize loadfun eventhandler forward start blocks tapeBuf c := by
    intro event h
    obtain ⟨c, hc, hmem⟩ := List.mem_flatMap.mp h
    exact ⟨c, Nat.lt_succ_iff.mp (List.mem_range.mp hc), hmem⟩
  refine ⟨map_calls loadfun eventhandler tapeBuf hblocks hcovers hlt, ?_, ?_, ?_⟩
  · intro tape htape call hcall
    rw [calls_flatMap] at hcall
    obtain ⟨c, hc, hcall⟩ := List.mem_flatMap.mp hcall
    have hc : c ≤ m / bufsize.toNat := Nat.lt_succ_iff.mp (List.mem_range.mp hc)
    have hcount := chunkCount_le hblocks hlt hc
    rw [calls_chunkEvents loadfun eventhandler tapeBuf hcount] at hcall
    obtain ⟨j, hj, rfl⟩ := List.mem_map.mp hcall
    have hj := List.mem_range.mp hj
    have hmem : ∀ k < _, _ := fun k hk => add_mem_orderOf hblocks hcovers hlt hc (k := k) hk
    -- The buffer has been loaded with the chunk to which the block belongs.
    have hload := htape _ _ (bufAt bufsize loadfun forward start blocks tapeBuf c) hmem _
      (blockPosition_lt forward hj)
    refine hload.trans (congrArg tape ?_)
    exact toNat_chunkBegin_add hblocks hcovers hlt hc hj
  · intro i count hload
    obtain ⟨c, hc, hmem⟩ := hevent hload
    rcases mem_chunkEvents loadfun eventhandler tapeBuf hmem with h | ⟨e, he⟩ | ⟨j, -, hj⟩
    -- A load is the one of its chunk, whose positions are visited afterwards.
    · obtain ⟨rfl, rfl⟩ := IterEvent.load.inj h
      refine ⟨?_, fun k hk => add_mem_orderOf hblocks hcovers hlt hc hk⟩
      rw [toNat_chunkCount hblocks hc]
      exact Chunks.length_le hpos
    · cases he
    · simp [blockEvents] at hj
  · intro subscript haccess
    obtain ⟨c, hc, hmem⟩ := hevent haccess
    rcases mem_chunkEvents loadfun eventhandler tapeBuf hmem with h | ⟨e, he⟩ | ⟨j, hj, hjmem⟩
    · cases h
    · cases he
    -- The counter of the loop is signed, and it does not become negative.
    · have hint := toInt_blockCounter forward (chunkCount_le hblocks hlt hc) hj
      have hlt' := blockPosition_lt forward hj
      have hle : (chunkCount bufsize blocks (BitVec.ofNat 64 c)).toNat ≤ bufsize.toNat := by
        rw [toNat_chunkCount hblocks hc]
        exact Chunks.length_le hpos
      simp only [blockEvents, hint, List.mem_cons, IterEvent.access.injEq, reduceCtorEq,
        List.not_mem_nil, or_false] at hjmem
      omega

/-- The function `iterate_impl` visits the blocks from `base` on. -/
theorem iterateImpl_visits (hpos : 0 < bufsize.toNat) {stop : ULong}
    (hblocks : (numberOfBlocks forward start stop).toNat = m)
    (hcovers : Covers forward start base m) (hlt : base + m ≤ 2 ^ 63) :
    ∃ events, (∀ fuel > 2 ^ 63 + 1,
        iterateImpl bufsize loadfun eventhandler forward fuel start stop tapeBuf = some events) ∧
      Visits bufsize loadfun (orderOf forward base m) events :=
  ⟨_, fun _ hfuel => run_chunks loadfun eventhandler forward start tapeBuf hblocks (by omega)
      (by omega),
    visits_chunks loadfun eventhandler tapeBuf hpos hblocks hcovers hlt⟩

end Visits

/-- The blocks from `start` to `stop`, in this order. -/
def visitOrder (start stop : ℕ) : List ℕ :=
  if start ≤ stop then List.range' start (stop + 1 - start)
  else (List.range' stop (start + 1 - stop)).reverse

theorem orderOf_true (base m : ℕ) : orderOf true base m = List.range' base m := by
  rw [orderOf, List.range'_eq_map_range]
  rfl

theorem orderOf_false (base m : ℕ) : orderOf false base m = (List.range' base m).reverse := by
  refine List.ext_getElem (by simp [orderOf]) fun k hk hk' => ?_
  simp only [orderOf, List.length_map, List.length_range] at hk
  simp [orderOf]
  omega

/-- The iteration ends and does what it should do. -/
def IteratesOver (bufsize : ULong) (loadfun : ULong → ULong → (ℤ → ULong) → ℤ → ULong)
    (eventhandler : Bool) (tapeBuf : ℤ → ULong) (start stop : ULong) (order : List ℕ) : Prop :=
  ∃ events, (∀ fuel > 2 ^ 63 + 1,
      iterate bufsize loadfun eventhandler fuel start stop tapeBuf = some events) ∧
    Visits bufsize loadfun order events

section Iterate

variable {bufsize : ULong} (hpos : 0 < bufsize.toNat)
  (loadfun : ULong → ULong → (ℤ → ULong) → ℤ → ULong) (eventhandler : Bool) (tapeBuf : ℤ → ULong)
include hpos

/-- Upwards, including the iteration over a single block. -/
theorem iteratesOver_of_le {start stop : ULong} (hle : start.toNat ≤ stop.toNat)
    (hstop : stop.toNat < 2 ^ 63) :
    IteratesOver bufsize loadfun eventhandler tapeBuf start stop
      (orderOf true start.toNat (stop.toNat + 1 - start.toNat)) := by
  have hblocks : (numberOfBlocks true start stop).toNat = stop.toNat + 1 - start.toNat := by
    simp only [numberOfBlocks, if_true]
    bv_omega
  obtain ⟨events, hrun, hvisits⟩ := iterateImpl_visits loadfun eventhandler tapeBuf hpos
    hblocks (fun _ => rfl) (by omega)
  refine ⟨events, fun fuel hfuel => ?_, hvisits⟩
  rw [iterate, if_pos hle, hrun fuel hfuel]

/-- Downwards. -/
theorem iteratesOver_of_lt {start stop : ULong} (hlt : stop.toNat < start.toNat)
    (hstart : start.toNat < 2 ^ 63) :
    IteratesOver bufsize loadfun eventhandler tapeBuf start stop
      (orderOf false stop.toNat (start.toNat + 1 - stop.toNat)) := by
  have hblocks : (numberOfBlocks false start stop).toNat = start.toNat + 1 - stop.toNat := by
    simp only [numberOfBlocks, Bool.false_eq_true, if_false]
    bv_omega
  have hcovers : Covers false start stop.toNat (start.toNat + 1 - stop.toNat) := by
    intro _
    simp only [Bool.false_eq_true, if_false]
    omega
  obtain ⟨events, hrun, hvisits⟩ := iterateImpl_visits loadfun eventhandler tapeBuf hpos
    hblocks hcovers (by omega)
  refine ⟨events, fun fuel hfuel => ?_, hvisits⟩
  rw [iterate, if_neg (by omega), hrun fuel hfuel]

/-- **The iteration visits each block once**, in order.  The last two parts are the iterations
over an empty tape. -/
theorem iterate_visits :
    (∀ start stop : ULong, start.toNat < 2 ^ 63 → stop.toNat < 2 ^ 63 →
      IteratesOver bufsize loadfun eventhandler tapeBuf start stop
        (visitOrder start.toNat stop.toNat)) ∧
    IteratesOver bufsize loadfun eventhandler tapeBuf (0 - 1) 0 [] ∧
    IteratesOver bufsize loadfun eventhandler tapeBuf 0 (0 - 1) [] := by
  refine ⟨fun start stop hstart hstop => ?_, ?_, ?_⟩
  · unfold visitOrder
    split
    · next hle =>
      rw [← orderOf_true]
      exact iteratesOver_of_le hpos loadfun eventhandler tapeBuf hle hstop
    · next hle =>
      rw [← orderOf_false]
      exact iteratesOver_of_lt hpos loadfun eventhandler tapeBuf (by omega) hstart
  · have hblocks : (numberOfBlocks false (0 - 1) 0).toNat = 0 := by decide
    obtain ⟨events, hrun, hvisits⟩ := iterateImpl_visits loadfun eventhandler tapeBuf hpos hblocks
      (fun h => absurd h (lt_irrefl 0)) (show 0 + 0 ≤ 2 ^ 63 by decide)
    refine ⟨events, fun fuel hfuel => ?_, hvisits⟩
    rw [iterate, if_neg (by decide), hrun fuel hfuel]
  · have hblocks : (numberOfBlocks true 0 (0 - 1)).toNat = 0 := by decide
    obtain ⟨events, hrun, hvisits⟩ := iterateImpl_visits loadfun eventhandler tapeBuf hpos hblocks
      (fun h => absurd h (lt_irrefl 0)) (show 0 + 0 ≤ 2 ^ 63 by decide)
    refine ⟨events, fun fuel hfuel => ?_, hvisits⟩
    rw [iterate, if_pos (by decide), hrun fuel hfuel]

end Iterate

/-- The words of a block. -/
def word (block : Block ULong) (k : ℤ) : ULong :=
  if k = 0 then block.index1 else if k = 1 then block.index2
  else if k = 2 then block.diff1 else block.diff2

/-- A `loadfun` for the given tape. -/
def loadWords (tape : ℕ → Block ULong) (i count : ULong) (buf : ℤ → ULong) (subscript : ℤ) : ULong :=
  if 0 ≤ subscript ∧ subscript < 4 * count.toNat then
    word (tape (i.toNat + (subscript / 4).toNat)) (subscript % 4)
  else buf subscript

theorem loads_loadWords (tape : ℕ → Block ULong) (order : List ℕ) :
    Loads (loadWords tape) tape order := by
  intro i count buf _ j hj
  have hword : ∀ k : ℤ, 0 ≤ k → k < 4 →
      loadWords tape i count buf (4 * j + k) = word (tape (i.toNat + j)) k := by
    intro k hk hk'
    have hdiv : (4 * (j : ℤ) + k) / 4 = j := by omega
    have hmod : (4 * (j : ℤ) + k) % 4 = k := by omega
    rw [loadWords, if_pos (by omega), hdiv, hmod, Int.toNat_natCast]
  have h0 := hword 0 (by decide) (by decide)
  rw [add_zero] at h0
  rw [blockOf, h0, hword 1 (by decide) (by decide), hword 2 (by decide) (by decide),
    hword 3 (by decide) (by decide)]
  rfl

theorem iterate_visits_downwards :
    IteratesOver 2 (loadWords fun i => ⟨BitVec.ofNat 64 i, 0, 0, 0⟩) true (fun _ => 0) 4 1
      [4, 3, 2, 1] :=
  (iterate_visits (by decide) _ _ _).1 4 1 (by decide) (by decide)

/-! ### The evaluation of the tape -/

/-- The calls are determined by the order and the tape. -/
theorem Visits.calls_eq {bufsize : ULong} {loadfun : ULong → ULong → (ℤ → ULong) → ℤ → ULong}
    {order : List ℕ} {events : List IterEvent} (h : Visits bufsize loadfun order events)
    {tape : ℕ → Block ULong} (htape : Loads loadfun tape order) :
    calls events = order.map fun i => (BitVec.ofNat 64 i, tape i) := by
  rw [← h.indices, List.map_map]
  refine (List.map_id _).symm.trans (List.map_congr_left fun call hcall => ?_)
  refine Prod.ext ?_ (h.words tape htape call hcall)
  simp

section Refinement

variable {σ : Type} (t : Tapefile ULong) (f : ULong → Block ULong → σ → Option σ)

/-- The block at an index. -/
def blockAt (i : ℕ) : Block ULong := t.tape.getD i ⟨0, 0, 0, 0⟩

/-- The visits of the abstract iteration. -/
theorem foldlM_visit {forward : Bool} {base m : ℕ} (hin : base + m ≤ t.tape.length) (s : σ) :
    (List.range m).foldlM (t.visit forward f base m) s
      = (orderOf forward base m).foldlM (fun s i => f (BitVec.ofNat 64 i) (blockAt t i) s) s := by
  rw [orderOf, List.foldlM_map]
  refine Tapefile.foldlM_ext _ s fun v hv r => ?_
  have hv := List.mem_range.mp hv
  have hlt : Tapefile.visitIndex forward base m v < t.tape.length := by
    unfold Tapefile.visitIndex
    split <;> omega
  rw [Tapefile.visit, List.getElem?_eq_getElem hlt, Option.bind_some]
  change _ = f _ (blockAt t (Tapefile.visitIndex forward base m v)) r
  rw [blockAt, List.getD_eq_getElem?_getD, List.getElem?_eq_getElem hlt]
  rfl

/-- **The loops refine the iteration of the evaluator**: the function is applied to the calls. -/
theorem iterate_refines {buf : ChunkedLog.Buf (Block ULong)} (hbuf : buf.size = t.bufsize.toNat)
    {start stop : ULong} (hstart : start.toNat < t.tape.length)
    (hstop : stop.toNat < t.tape.length) (eventhandler : Bool) (tapeBuf : ℤ → ULong) (s : σ) :
    ∃ events, (∀ fuel > 2 ^ 63 + 1, iterate t.bufsize (loadWords (blockAt t)) eventhandler fuel
        start stop tapeBuf = some events) ∧
      (t.iterate start stop f (buf, s)).map Prod.snd
        = (calls events).foldlM (fun s call => f call.1 call.2 s) s := by
  have hsize := t.size_tape
  unfold maxFileSize at hsize
  by_cases hle : start.toNat ≤ stop.toNat
  · obtain ⟨events, hrun, hvisits⟩ := iteratesOver_of_le t.bufsize_pos (loadWords (blockAt t))
      eventhandler tapeBuf hle (by omega)
    have hblocks : (if true then stop - start + 1 else start - stop + 1 : ULong).toNat
        = stop.toNat + 1 - start.toNat := by
      simp only [if_true]
      bv_omega
    have hstarts : Tapefile.StartsAt true start.toNat (stop.toNat + 1 - start.toNat) start := by
      simp [Tapefile.StartsAt]
    refine ⟨events, hrun, ?_⟩
    rw [hvisits.calls_eq (loads_loadWords _ _), List.foldlM_map, Tapefile.iterate, if_pos hle,
      t.iterateImpl_spec true f hblocks (by omega) hstarts hbuf, foldlM_visit t f (by omega)]
  · obtain ⟨events, hrun, hvisits⟩ := iteratesOver_of_lt t.bufsize_pos (loadWords (blockAt t))
      eventhandler tapeBuf (not_le.mp hle) (by omega)
    have hblocks : (if false then stop - start + 1 else start - stop + 1 : ULong).toNat
        = start.toNat + 1 - stop.toNat := by
      simp only [Bool.false_eq_true, if_false]
      bv_omega
    have hstarts : Tapefile.StartsAt false stop.toNat (start.toNat + 1 - stop.toNat) start := by
      simp only [Tapefile.StartsAt, Bool.false_eq_true, if_false]
      bv_omega
    refine ⟨events, hrun, ?_⟩
    rw [hvisits.calls_eq (loads_loadWords _ _), List.foldlM_map, Tapefile.iterate, if_neg hle,
      t.iterateImpl_spec false f hblocks (by omega) hstarts hbuf, foldlM_visit t f (by omega)]

end Refinement

end TapeLoop

end Derivgrind
