import Derivgrind.Tape.Activity
import Derivgrind.Tape.TextFile

/-!
# The program `tape-evaluation`

The program opens the tape in the recording directory.  Depending on its second argument, it
counts the blocks by the number of their operands, it prints the tape, or it evaluates the
tape in one of the two directions.

## Main definitions

* `Tapefile.stats` — the number of blocks with no, one and two operands.
* `Tapefile.print` — the tape as a table.
* `Tapefile.ofFile` — the tape in a file.
* `tapeEvaluationMain` — the program.

## Main results

* `Tapefile.stats_eq`, `Tapefile.print_eq` — what the iterations compute.
-/

namespace Derivgrind

open ChunkedLog TextStream

/-! ### Statistics -/

/-- The numbers of blocks with no, one and two operands that are not zero. -/
structure TapeStats where
  nZero : ULong
  nOne : ULong
  nTwo : ULong
  deriving DecidableEq, Repr

/-- The body of `stats`. -/
def statsBlock {R : Type} (_index : ULong) (block : Block R) (s : TapeStats) : Option TapeStats :=
  if block.index1 = 0 ∧ block.index2 = 0 then some { s with nZero := s.nZero + 1 }
  else if block.index1 ≠ 0 ∧ block.index2 ≠ 0 then some { s with nTwo := s.nTwo + 1 }
  else some { s with nOne := s.nOne + 1 }

/-- `stats`. -/
def Tapefile.stats {R : Type} (t : Tapefile R) (tapeBuf : Buf (Block R)) : Option TapeStats :=
  (t.iterate 0 (t.numberOfBlocks - 1) statsBlock (tapeBuf, ⟨0, 0, 0⟩)).map Prod.snd

/-! ### Printing -/

/-- The line between the blocks. -/
def printRule : List Char := "|------------------|------------------|------------------|\n".toList

/-- A number in a column, with hexadecimal digits. -/
def hexColumn (x : ULong) : List Char := (Nat.toDigits 16 x.toNat).leftpad 16 ' '

/-- What is known about a block from the index files. -/
def printLabel (inputs outputs : List ULong) (index : ULong) : List Char :=
  if index = 0 then "|            dummy | ".toList
  else if index ∈ inputs ∧ index ∈ outputs then "|     input/output | ".toList
  else if index ∈ inputs then "|            input | ".toList
  else if index ∈ outputs then "|           output | ".toList
  else "|                  | ".toList

/-- The lines for a block; `scientific` is how numbers are written. -/
def printLines {R : Type} (scientific : R → List Char) (inputs outputs : List ULong)
    (index : ULong) (block : Block R) : List Char :=
  printRule ++ "| ".toList ++ hexColumn index ++ " | ".toList ++ hexColumn block.index1 ++
    " | ".toList ++ hexColumn block.index2 ++ " |\n".toList ++ printLabel inputs outputs index ++
    (scientific block.diff1).leftpad 16 ' ' ++ " | ".toList ++
    (scientific block.diff2).leftpad 16 ' ' ++ " |\n".toList

/-- The option `--print`, given the contents of the index files. -/
def Tapefile.print {R : Type} (t : Tapefile R) (scientific : R → List Char)
    (inputs outputs : List ULong) (tapeBuf : Buf (Block R)) : Option (List Char) :=
  (t.iterate 0 (t.numberOfBlocks - 1) (fun index block out =>
    some (out ++ printLines scientific inputs outputs index block)) (tapeBuf, [])).map
      fun r => r.2 ++ printRule

/-! ### The program -/

/-- A file of 64-bit words. -/
structure DataFile where
  words : List ULong
  size_le : 8 * words.length ≤ maxFileSize

theorem length_decodeBlocks {R : Type} [CommRing R] (dec : ULong → R) (ws : List ULong) :
    (decodeBlocks dec ws).length = ws.length / 4 := by
  induction ws using decodeBlocks.induct with
  | case1 index1 index2 diff1 diff2 ws ih =>
    rw [decodeBlocks, List.length_cons, ih]
    simp only [List.length_cons]
    omega
  | case2 ws h =>
    rw [decodeBlocks.eq_2 dec ws h]
    match ws, h with
    | [], _ | [_], _ | [_, _], _ | [_, _, _], _ => simp
    | w₁ :: w₂ :: w₃ :: w₄ :: ws, h => exact absurd rfl (h w₁ w₂ w₃ w₄ ws)

theorem hundred_pos : 0 < (100 : ULong).toNat := by decide

theorem hundred_lt : 32 * (100 : ULong).toNat < 2 ^ 64 := by decide

/-- The tape in a file, which is read in chunks of 100 blocks: the number of blocks comes from
the size of the file. -/
def Tapefile.ofFile {R : Type} [CommRing R] (dec : ULong → R) (file : DataFile) : Tapefile R where
  bufsize := 100
  numberOfBlocks := BitVec.ofNat 64 (file.words.length / 4)
  tape := decodeBlocks dec file.words
  bufsize_pos := hundred_pos
  bufsize_lt := hundred_lt
  length_tape := by
    have hsize := file.size_le
    unfold maxFileSize at hsize
    rw [length_decodeBlocks, BitVec.toNat_ofNat, Nat.mod_eq_of_lt (by omega)]
  size_tape := by
    have hsize := file.size_le
    rw [length_decodeBlocks]
    omega

@[simp] theorem Tapefile.ofFile_tape {R : Type} [CommRing R] (dec : ULong → R)
    (file : DataFile) : (Tapefile.ofFile dec file).tape = decodeBlocks dec file.words := rfl

/-- The environment of the program: text files and binary files, and numbers. -/
structure MainEnv (R : Type) extends EvalEnv R where
  /-- The binary files that can be opened, by name. -/
  binaries : String → Option DataFile
  /-- The numbers that bit patterns stand for. -/
  dec : ULong → R
  /-- How numbers are printed. -/
  scientific : R → List Char

/-- What the program leaves behind. -/
inductive MainResult
  | printed (text : List Char)
  | written (filename : String) (text : List Char)
  deriving DecidableEq, Repr

/-- The line with the statistics. -/
def statsLine (s : TapeStats) : List Char :=
  Nat.toDigits 10 s.nZero.toNat ++ ' ' :: Nat.toDigits 10 s.nOne.toNat ++
    ' ' :: Nat.toDigits 10 s.nTwo.toNat ++ ['\n']

section Main

variable {R : Type} [CommRing R] [DecidableEq R] (d : MainEnv R) (fuel : ℕ)
  (tapeBuf : Buf (Block R))

/-- The program, once the tape has been opened. -/
def evaluateTape (path : String) (t : Tapefile R) (mode : Option String) :
    ExceptT String Option MainResult :=
  if mode = some "--stats" then do
    let s ← liftM (t.stats tapeBuf)
    return .printed (statsLine s)
  else if mode = some "--print" then do
    let inputs ← readFromTextFile ullGet d.ullData fuel d.files (path ++ "/dg-input-indices")
    let outputs ← readFromTextFile ullGet d.ullData fuel d.files (path ++ "/dg-output-indices")
    let text ← liftM (t.print d.scientific inputs outputs tapeBuf)
    return .printed text
  else do
    let (filename, text) ←
      tapeEvaluation d.toEvalEnv fuel path (decide (mode = some "--forward")) t tapeBuf
    return .written filename text

/-- `main`.  Other second arguments are ignored. -/
def tapeEvaluationMain : List String → ExceptT String Option MainResult
  | _ :: path :: args =>
      match d.binaries (path ++ "/dg-tape") with
      | none => throw ("Cannot open tape file '" ++ path ++ "/dg-tape'.")
      | some file => evaluateTape d fuel tapeBuf path (Tapefile.ofFile d.dec file) args.head?
  | argv => throw ("Usage: " ++ argv.headD "" ++ " path [--stats|--forward|--print]")

end Main

/-! ### What the iterations compute -/

section Iterations

variable {R : Type} (t : Tapefile R) {tapeBuf : Buf (Block R)}

/-- The number of active operands of a block. -/
def Block.operandCount (block : Block R) : ℕ :=
  (if block.index1 = 0 then 0 else 1) + (if block.index2 = 0 then 0 else 1)

theorem statsBlock_eq (index : ULong) (block : Block R) (s : TapeStats) :
    statsBlock index block s = some
      ⟨s.nZero + BitVec.ofNat 64 (if block.operandCount = 0 then 1 else 0),
        s.nOne + BitVec.ofNat 64 (if block.operandCount = 1 then 1 else 0),
        s.nTwo + BitVec.ofNat 64 (if block.operandCount = 2 then 1 else 0)⟩ := by
  unfold statsBlock Block.operandCount
  by_cases h1 : block.index1 = 0#64 <;> by_cases h2 : block.index2 = 0#64 <;> simp [h1, h2]

/-- Blocks are counted. -/
theorem foldlM_statsBlock (l : List (Fin t.numberOfBlocks.toNat)) (s : TapeStats) :
    l.foldlM (t.visitBlock statsBlock) s = some
      ⟨s.nZero + BitVec.ofNat 64 (l.countP fun i => (t.blockAt i).operandCount = 0),
        s.nOne + BitVec.ofNat 64 (l.countP fun i => (t.blockAt i).operandCount = 1),
        s.nTwo + BitVec.ofNat 64 (l.countP fun i => (t.blockAt i).operandCount = 2)⟩ := by
  induction l generalizing s with
  | nil => simp
  | cons i l ih =>
    have hcount : ∀ (x : ULong) (n : ℕ) (p : Prop) [Decidable p],
        x + BitVec.ofNat 64 (if p then 1 else 0) + BitVec.ofNat 64 n
          = x + BitVec.ofNat 64 (n + if p then 1 else 0) := by
      intro x n p _
      rw [BitVec.add_assoc, ← BitVec.ofNat_add, Nat.add_comm n]
    rw [List.foldlM_cons, Tapefile.visitBlock, statsBlock_eq, Option.bind_eq_bind,
      Option.bind_some, ih]
    simp only [hcount, List.countP_cons, decide_eq_true_eq]

/-- Counting the blocks of a tape. -/
theorem Tapefile.countP_finRange (p : Block R → Bool) :
    ((List.finRange t.numberOfBlocks.toNat).countP fun i => p (t.blockAt i)) = t.tape.countP p := by
  have hmap : (List.finRange t.numberOfBlocks.toNat).map t.blockAt = t.tape := by
    refine List.ext_getElem (by simp [t.length_tape]) fun i h₁ h₂ => ?_
    simp [Tapefile.blockAt]
  rw [← congrArg (List.countP p) hmap, List.countP_map]
  rfl

/-- **The statistics** count all blocks. -/
theorem Tapefile.stats_eq (hbuf : tapeBuf.size = t.bufsize.toNat) :
    t.stats tapeBuf = some
      ⟨BitVec.ofNat 64 (t.tape.countP fun block => block.operandCount = 0),
        BitVec.ofNat 64 (t.tape.countP fun block => block.operandCount = 1),
        BitVec.ofNat 64 (t.tape.countP fun block => block.operandCount = 2)⟩ := by
  rw [stats, t.iterate_forward _ hbuf, foldlM_statsBlock]
  simp only [BitVec.ofNat_eq_ofNat, BitVec.zero_add,
    t.countP_finRange fun block => decide (block.operandCount = 0),
    t.countP_finRange fun block => decide (block.operandCount = 1),
    t.countP_finRange fun block => decide (block.operandCount = 2)]

/-- The lines that are printed. -/
theorem foldlM_print (scientific : R → List Char) (inputs outputs : List ULong)
    (l : List (Fin t.numberOfBlocks.toNat)) (out : List Char) :
    l.foldlM (t.visitBlock fun index block out =>
        some (out ++ printLines scientific inputs outputs index block)) out
      = some (out ++ l.flatMap fun i =>
        printLines scientific inputs outputs (BitVec.ofNat 64 i.val) (t.blockAt i)) := by
  induction l generalizing out with
  | nil => simp
  | cons i l ih =>
    rw [List.foldlM_cons, Tapefile.visitBlock, Option.bind_eq_bind, Option.bind_some, ih,
      List.flatMap_cons, List.append_assoc]

/-- **The table** has the lines of all blocks, in order. -/
theorem Tapefile.print_eq (scientific : R → List Char) (inputs outputs : List ULong)
    (hbuf : tapeBuf.size = t.bufsize.toNat) :
    t.print scientific inputs outputs tapeBuf = some
      ((List.finRange t.numberOfBlocks.toNat).flatMap (fun i =>
        printLines scientific inputs outputs (BitVec.ofNat 64 i.val) (t.blockAt i)) ++
          printRule) := by
  have hiter := t.iterate_forward (fun index block out =>
    some (out ++ printLines scientific inputs outputs index block)) hbuf ([] : List Char)
  rw [foldlM_print, List.nil_append] at hiter
  obtain ⟨r, hr, hr'⟩ := Option.map_eq_some_iff.mp hiter
  rw [print, hr, Option.map_some, hr']

end Iterations

end Derivgrind
