import Derivgrind.Lib.Loop
import Derivgrind.Lib.TextStream
import Derivgrind.Tape.Transpose

/-!
# Index and gradient files

The recording pass writes the indices of the input and output variables to text files, and
the tape evaluator reads them together with the derivatives of the variables.

The loop that reads a text file tests for the end of the file after each number that it
has tried to read.  If the end is reached while reading a number, that number is dropped;
after a failure, the stream is not read from any more and the loop does not end.  The loops
over the numbers have counters with 32 bits.

## Main definitions

* `NumGet.ull`, `NumGet.double` — how the numbers are read.
* `readFromTextFile`, `writeToTextFile` — text files.
* `seedGradientVectorFromTextFile`, `readGradientVectorToTextFile` — derivatives.
* `tapeEvaluation` — the evaluation of a tape.

## Main results

* `textFiles_iff` — when reading ends and loses nothing, and when a derivative is seeded
  and reported for each variable.
-/

namespace Derivgrind

open ChunkedLog TextStream

/-! ### Numbers -/

/-- The conversion to an `unsigned long long`. -/
def strtoull (field : List Char) : ULong × Bool :=
  let digits := if field.head? = some '+' ∨ field.head? = some '-' then field.tail else field
  let n := Nat.ofDigitChars 10 digits 0
  if digits = [] then (0, true)
  else if n < 2 ^ 64 then
    (if field.head? = some '-' then -BitVec.ofNat 64 n else BitVec.ofNat 64 n, false)
  else (BitVec.ofNat 64 (2 ^ 64 - 1), true)

theorem not_isDigit_of_isSpace {c : Char} (h : TextStream.isSpace c = true) : c.isDigit = false := by
  simp only [TextStream.isSpace, Bool.or_eq_true, beq_iff_eq] at h
  rcases h with ((((rfl | rfl) | rfl) | rfl) | rfl) | rfl <;> rfl

theorem ne_of_isSpace {c : Char} (h : TextStream.isSpace c = true) {d : Char} (hd : TextStream.isSpace d = false) :
    (c == d) = false := by
  refine beq_eq_false_iff_ne.mpr ?_
  rintro rfl
  rw [h] at hd
  cases hd

/-- How `unsigned long long` numbers are read. -/
def ullGet : NumGet ULong where
  accepts field c := c.isDigit || field.isEmpty && (c == '+' || c == '-')
  convert := strtoull
  accepts_space field c h := by
    rw [not_isDigit_of_isSpace h, ne_of_isSpace h rfl, ne_of_isSpace h rfl]
    exact Bool.and_false _
  convert_nil := rfl

/-- The exponent of a field has started. -/
def hasExponent (field : List Char) : Bool := field.any fun c => c == 'e' || c == 'E'

/-- How `double` numbers are read: a sign, digits with a decimal point, and an exponent.
The value of a field with digits is given by `strtod`, which fails if it does not convert all
of the field. -/
def doubleGet {R : Type*} [Zero R] (strtod : List Char → R × Bool) : NumGet R where
  accepts field c :=
    c.isDigit ||
    (c == '+' || c == '-') && (field.isEmpty || field.getLast? == some 'e' ||
      field.getLast? == some 'E') ||
    c == '.' && !(field.contains '.' || hasExponent field) ||
    (c == 'e' || c == 'E') && field.any Char.isDigit && !hasExponent field
  convert field := if field.any Char.isDigit then strtod field else (0, true)
  accepts_space field c h := by
    simp only [not_isDigit_of_isSpace h, ne_of_isSpace h (d := '+') rfl,
      ne_of_isSpace h (d := '-') rfl, ne_of_isSpace h (d := '.') rfl,
      ne_of_isSpace h (d := 'e') rfl, ne_of_isSpace h (d := 'E') rfl, Bool.or_self,
      Bool.false_and]
  convert_nil := rfl

/-! ### Text files -/

/-- `dg_bar_tape_write_input_index` and `dg_bar_tape_write_output_index`: the line for an index. -/
def indexLine (index : ULong) : List Char := Nat.toDigits 10 index.toNat ++ ['\n']

/-- The variables of the loop that reads a file. -/
structure ReadState (T : Type*) where
  file : TextStream
  result : List T
  /-- The loop was left. -/
  left : Bool

section Read

variable {T : Type} (F : NumGet T) (data : ℕ → T)

/-- The body of the loop that reads a file.  In each round, the variable `data` is not
initialized. -/
def readBody (s : ReadState T) : Option (ReadState T) :=
  let r := s.file.extract F (data s.result.length)
  if r.2.eof then some { s with file := r.2, left := true }
  else some ⟨r.2, s.result ++ [r.1], false⟩

/-- The loop that reads a file. -/
def readLoop (fuel : ℕ) (text : List Char) : Option (List T) :=
  (Loop.run (fun s => !s.left) (readBody F data) fuel ⟨⟨text, false, false⟩, [], false⟩).map
    ReadState.result

/-- `readFromTextFile`. -/
def readFromTextFile (fuel : ℕ) (files : String → Option (List Char)) (filename : String) :
    ExceptT String Option (List T) :=
  match files filename with
  | none => throw ("Error: while opening '" ++ filename ++ "'.")
  | some text => liftM (readLoop F data fuel text)

end Read

/-! ### The tape evaluator -/

/-- The environment of the tape evaluator. -/
structure EvalEnv (R : Type) where
  /-- The files that can be opened, by name. -/
  files : String → Option (List Char)
  strtod : List Char → R × Bool
  /-- How `double` numbers are written, with 16 digits. -/
  put : R → List Char
  /-- The contents of variables that are not initialized. -/
  ullData : ℕ → ULong
  doubleData : ℕ → R

section Evaluator

open Tapefile

variable {R : Type} [CommRing R] [DecidableEq R] {n : ℕ} (e : EvalEnv R) (fuel : ℕ)

/-- `writeToTextFile`: the text that is written.  That the file could be opened, which the function
checks first, is taken for granted. -/
def writeToTextFile (data : List R) : Option (List Char) :=
  Loop.forRange 32 fuel data.length (fun i text => do
    let x ← data[i]?
    some (text ++ (e.put x ++ ['\n']))) []

/-- `seedGradientVectorFromTextFile`. -/
def seedGradientVectorFromTextFile (filenameIndices filenameGradients : String)
    (gradientVector : Fin n → R) : ExceptT String Option (Fin n → R) := do
  let indices ← readFromTextFile ullGet e.ullData fuel e.files filenameIndices
  let gradients ← readFromTextFile (doubleGet e.strtod) e.doubleData fuel e.files filenameGradients
  if indices.length ≠ gradients.length then
    throw ("Error: Sizes of '" ++ filenameIndices ++ "' and '" ++ filenameGradients ++
      "' mismatch.")
  else
    liftM (Loop.forRange 32 fuel indices.length (fun i vec => do
      let index ← indices[i]?
      let gradient ← gradients[i]?
      addDerivative? vec index gradient) gradientVector)

/-- `readGradientVectorToTextFile`: the text that is written. -/
def readGradientVectorToTextFile (filenameIndices : String) (gradientVector : Fin n → R) :
    ExceptT String Option (List Char) := do
  let indices ← readFromTextFile ullGet e.ullData fuel e.files filenameIndices
  let gradients ← liftM (Loop.forRange 32 fuel indices.length (fun i gradients => do
    let index ← indices[i]?
    let x ← derivative? gradientVector index
    some (gradients.set i x)) (List.replicate indices.length (0 : R)))
  liftM (writeToTextFile e fuel gradients)

/-- The evaluation of a tape by `main`: the name of the file that is written, and its text. -/
def tapeEvaluation (path : String) (forward : Bool) (t : Tapefile R) (tapeBuf : Buf (Block R)) :
    ExceptT String Option (String × List Char) :=
  if forward then do
    let vec ← seedGradientVectorFromTextFile e fuel (path ++ "/dg-input-indices")
      (path ++ "/dg-input-dots") fun _ => 0
    let vec ← liftM (t.evaluateForward tapeBuf vec)
    let text ← readGradientVectorToTextFile e fuel (path ++ "/dg-output-indices") vec
    return (path ++ "/dg-output-dots", text)
  else do
    let vec ← seedGradientVectorFromTextFile e fuel (path ++ "/dg-output-indices")
      (path ++ "/dg-output-bars") fun _ => 0
    let vec ← liftM (t.evaluateBackward tapeBuf vec)
    let text ← readGradientVectorToTextFile e fuel (path ++ "/dg-input-indices") vec
    return (path ++ "/dg-input-bars", text)

end Evaluator

/-! ### The end of the loop -/

section Read

variable {T : Type} {F : NumGet T} (data : ℕ → T) {text : List Char}

/-- **A number is read.** -/
theorem readBody_of_not_end (hend : (F.firstField text).2 ≠ []) (result : List T) :
    readBody F data ⟨⟨text, false, false⟩, result, false⟩
      = some ⟨⟨(F.firstField text).2, false, (F.convert (F.firstField text).1).2⟩,
        result ++ [(F.convert (F.firstField text).1).1], false⟩ := by
  simp only [readBody, extract_of_not_end F _ hend, Bool.false_eq_true, ↓reduceIte]

/-- **The loop ends** at the end of the text. -/
theorem run_readBody {vs : List T} (h : F.Reads text vs) {fuel : ℕ}
    (hfuel : text.length + 1 < fuel) (result : List T) :
    (Loop.run (fun s => !s.left) (readBody F data) fuel ⟨⟨text, false, false⟩, result, false⟩).map
      ReadState.result = some (result ++ vs) := by
  induction h generalizing fuel result with
  | @stop text hend =>
    obtain ⟨fuel, rfl⟩ : ∃ k, fuel = k + 2 := ⟨fuel - 2, by omega⟩
    have hbody : readBody F data ⟨⟨text, false, false⟩, result, false⟩
        = some ⟨(extract F ⟨text, false, false⟩ (data result.length)).2, result, true⟩ := by
      simp only [readBody, extract_of_end F _ hend, ↓reduceIte]
    rw [Loop.run_of_cond rfl hbody, Loop.run_of_not_cond rfl, List.append_nil, Option.map_some]
  | @number text v vs hend hv hvs ih =>
    have hlength := F.length_lt_of_convert hv
    obtain ⟨fuel, rfl⟩ : ∃ k, fuel = k + 1 := ⟨fuel - 1, by omega⟩
    have hbody := readBody_of_not_end data hend result
    rw [hv] at hbody
    rw [Loop.run_of_cond rfl hbody, ih (by omega), List.append_assoc, List.singleton_append]

theorem readLoop_eq {vs : List T} (h : F.Reads text vs) {fuel : ℕ}
    (hfuel : text.length + 1 < fuel) : readLoop F data fuel text = some vs :=
  run_readBody data h hfuel []

/-- **The loop does not end** after a failure. -/
theorem run_readBody_of_fail {s : ReadState T} (heof : s.file.eof = false)
    (hfail : s.file.fail = true) (hleft : s.left = false) (fuel : ℕ) :
    Loop.run (fun s => !s.left) (readBody F data) fuel s = none := by
  refine Loop.run_eq_none (P := fun s => s.file.eof = false ∧ s.file.fail = true ∧ s.left = false)
    ?_ ?_ fuel ⟨heof, hfail, hleft⟩
  · rintro s ⟨-, -, hleft⟩
    simp only [hleft, Bool.not_false]
  · rintro s s' ⟨heof, hfail, hleft⟩ hbody
    simp only [readBody, extract_of_fail F _ hfail, heof, Bool.false_eq_true, ↓reduceIte,
      Option.some.injEq] at hbody
    subst hbody
    exact ⟨heof, hfail, rfl⟩

/-- **The loop does not end** if a field that does not reach the end of the text is not a
number. -/
theorem run_readBody_eq_none (h : ¬∃ vs, F.Reads text vs) (fuel : ℕ) (result : List T) :
    Loop.run (fun s => !s.left) (readBody F data) fuel ⟨⟨text, false, false⟩, result, false⟩
      = none := by
  induction fuel generalizing text result with
  | zero => rfl
  | succ fuel ih =>
    have hend : (F.firstField text).2 ≠ [] := fun hend => h ⟨[], .stop hend⟩
    rw [Loop.run_of_cond rfl (readBody_of_not_end data hend result)]
    cases hv : F.convert (F.firstField text).1 with
    | mk v fail =>
      cases fail with
      | true => exact run_readBody_of_fail data rfl rfl rfl fuel
      | false => exact ih (fun ⟨vs, hvs⟩ => h ⟨v :: vs, .number hend hv hvs⟩) _

theorem readLoop_eq_none (h : ¬∃ vs, F.Reads text vs) (fuel : ℕ) :
    readLoop F data fuel text = none := by
  rw [readLoop, run_readBody_eq_none data h, Option.map_none]

end Read

/-! ### The indices -/

section Indices

theorem scan_of_digits (field : List Char) {w : List Char} (hw : ∀ c ∈ w, c.isDigit = true) :
    ullGet.scan field w = (field ++ w, []) := by
  induction w generalizing field with
  | nil => rw [List.append_nil]; rfl
  | cons c w ih =>
    have hc : ullGet.accepts field c = true := by
      simp only [ullGet, hw c List.mem_cons_self, Bool.true_or]
    rw [NumGet.scan, if_pos hc, ih _ fun d hd => hw d (List.mem_cons_of_mem c hd),
      List.append_assoc, List.singleton_append]

/-- **An index is written as a number.** -/
theorem isNumber_toDigits (index : ULong) :
    ullGet.IsNumber (Nat.toDigits 10 index.toNat) index where
  scan_eq := by
    refine (scan_of_digits [] fun c hc => ?_).trans (by rw [List.nil_append])
    exact Nat.isDigit_of_mem_toDigits (by decide) (by decide) hc
  convert_eq := by
    have hsign : ∀ c : Char, c.isDigit = false → (Nat.toDigits 10 index.toNat).head? ≠ some c := by
      intro c hc hhead
      have hdigit := Nat.isDigit_of_mem_toDigits (by decide) (by decide) (List.mem_of_head? hhead)
      rw [hc] at hdigit
      cases hdigit
    have hlt : index.toNat < 2 ^ 64 := index.isLt
    change strtoull _ = _
    simp only [strtoull, hsign '+' rfl, hsign '-' rfl, or_self, ↓reduceIte,
      Nat.ofDigitChars_ten_toDigits, hlt, Nat.toDigits_ne_nil, BitVec.ofNat_toNat,
      BitVec.setWidth_eq]

/-- **The lines of the index files** are a list of numbers. -/
theorem isList_indexLines (indices : List ULong) :
    ullGet.IsList (indices.flatMap indexLine) indices := by
  induction indices with
  | nil => exact .blank fun c hc => absurd hc List.not_mem_nil
  | cons index indices ih =>
    have hline : (index :: indices).flatMap indexLine
        = [] ++ (Nat.toDigits 10 index.toNat ++ (['\n'] ++ indices.flatMap indexLine)) := by
      rw [List.flatMap_cons, indexLine, List.append_assoc, List.nil_append]
    have hnewline : ∀ c ∈ ['\n'], TextStream.isSpace c = true := List.forall_mem_singleton.mpr rfl
    rw [hline]
    refine .number (fun c hc => absurd hc List.not_mem_nil) (isNumber_toDigits index) ?_
      (ih.space_append hnewline)
    intro c hc
    cases hc
    rfl

theorem endsInSpace_indexLines (indices : List ULong) :
    EndsInSpace (indices.flatMap indexLine) := by
  rcases List.eq_nil_or_concat indices with rfl | ⟨init, last, rfl⟩
  · intro c hc
    cases hc
  · rw [List.concat_eq_append, List.flatMap_append, List.flatMap_singleton, indexLine,
      ← List.append_assoc, endsInSpace_append _ (List.cons_ne_nil _ _)]
    decide

/-- **The index files are read back.** -/
theorem reads_indexLines (indices : List ULong) :
    ullGet.Reads (indices.flatMap indexLine) indices := by
  have hreads := (isList_indexLines indices).reads
  rwa [if_pos (endsInSpace_indexLines indices)] at hreads

end Indices

/-! ### The loops over the numbers -/

section Loops

open Tapefile

theorem foldlM_range_getElem? {α σ : Type} (g : σ → α → Option σ) (l : List α) (s : σ) :
    (List.range l.length).foldlM (fun s i => (l[i]?).bind (g s)) s = l.foldlM g s := by
  induction l generalizing s with
  | nil => rfl
  | cons a l ih =>
    rw [List.length_cons, List.range_succ_eq_map, List.foldlM_cons, List.foldlM_cons]
    simp only [List.foldlM_map]
    exact congrArg _ (funext fun s' => ih s')

variable {R : Type} [CommRing R] {n : ℕ}

/-- The derivatives of variables, added up if a variable is listed more than once. -/
def seededVector (indices : List ULong) (gradients : List R) (i : Fin n) : R :=
  ((indices.zip gradients).map fun p => if p.1.toNat = i.val then p.2 else 0).sum

/-- The derivatives at the given indices. -/
def derivativesAt (vec : Fin n → R) (indices : List ULong) : List R :=
  indices.map fun index => (derivative? vec index).getD 0

theorem addDerivative?_eq {vec : Fin n → R} {index : ULong} (h : index.toNat < n) (x : R) :
    addDerivative? vec index x = some fun i => vec i + if index.toNat = i.val then x else 0 := by
  rw [addDerivative?, dif_pos h]
  congr 1
  funext i
  by_cases hi : index.toNat = i.val
  · obtain rfl : (⟨index.toNat, h⟩ : Fin n) = i := Fin.ext hi
    rw [Function.update_self, if_pos rfl]
  · rw [Function.update_of_ne (fun heq => hi (by rw [heq])), if_neg hi, add_zero]

omit [CommRing R] in
theorem derivative?_eq {vec : Fin n → R} {index : ULong} (h : index.toNat < n) :
    derivative? vec index = some (vec ⟨index.toNat, h⟩) := by
  rw [derivative?, dif_pos h]

/-- **Seeding**: one derivative per variable. -/
theorem foldlM_addDerivative? {pairs : List (ULong × R)} (hin : ∀ p ∈ pairs, p.1.toNat < n)
    (vec : Fin n → R) :
    pairs.foldlM (fun vec p => addDerivative? vec p.1 p.2) vec
      = some fun i => vec i + (pairs.map fun p => if p.1.toNat = i.val then p.2 else 0).sum := by
  induction pairs generalizing vec with
  | nil => simp
  | cons p pairs ih =>
    rw [List.foldlM_cons, addDerivative?_eq (hin p List.mem_cons_self), Option.bind_eq_bind,
      Option.bind_some, ih fun q hq => hin q (List.mem_cons_of_mem p hq)]
    simp only [List.map_cons, List.sum_cons, add_assoc]

/-- The loop of `seedGradientVectorFromTextFile`. -/
theorem foldlM_seed {indices : List ULong} {gradients : List R}
    (hlength : gradients.length = indices.length) (hin : ∀ index ∈ indices, index.toNat < n)
    (vec : Fin n → R) :
    (List.range indices.length).foldlM (fun vec i => do
        let index ← indices[i]?
        let gradient ← gradients[i]?
        addDerivative? vec index gradient) vec
      = some fun i => vec i + seededVector indices gradients i := by
  have hzip : (indices.zip gradients).length = indices.length := by
    rw [List.length_zip, hlength, Nat.min_self]
  have hbody : (fun (vec : Fin n → R) (i : ℕ) => do
        let index ← indices[i]?
        let gradient ← gradients[i]?
        addDerivative? vec index gradient)
      = fun vec i => ((indices.zip gradients)[i]?).bind fun (p : ULong × R) =>
        addDerivative? vec p.1 p.2 := by
    funext vec i
    rw [List.zip, List.getElem?_zipWith]
    cases indices[i]? <;> cases gradients[i]? <;> rfl
  rw [hbody, ← hzip, 
    foldlM_range_getElem? (fun (vec : Fin n → R) (p : ULong × R) => addDerivative? vec p.1 p.2)]
  exact foldlM_addDerivative? (fun p hp => hin _ (List.of_mem_zip hp).1) vec

/-- The first loop of `readGradientVectorToTextFile`. -/
theorem foldlM_derivative? (vec : Fin n → R) {indices : List ULong}
    (hin : ∀ index ∈ indices, index.toNat < n) :
    (List.range indices.length).foldlM (fun gradients i => do
        let index ← indices[i]?
        let x ← derivative? vec index
        some (gradients.set i x)) (List.replicate indices.length (0 : R))
      = some (derivativesAt vec indices) := by
  have hprefix : ∀ k ≤ indices.length, (List.range k).foldlM (fun gradients i => do
        let index ← indices[i]?
        let x ← derivative? vec index
        some (gradients.set i x)) (List.replicate indices.length (0 : R))
      = some (derivativesAt vec (indices.take k) ++ List.replicate (indices.length - k) 0) := by
    intro k hk
    induction k with
    | zero => simp [derivativesAt]
    | succ k ih =>
      obtain ⟨x, hx⟩ : ∃ x, derivative? vec indices[k] = some x :=
        ⟨_, derivative?_eq (hin _ (List.getElem_mem hk))⟩
      have htake : derivativesAt vec (indices.take (k + 1))
          = derivativesAt vec (indices.take k) ++ [x] := by
        rw [derivativesAt, derivativesAt, List.take_succ_eq_append_getElem hk, List.map_append,
          List.map_singleton, hx, Option.getD_some]
      have hrest : List.replicate (indices.length - k) (0 : R)
          = 0 :: List.replicate (indices.length - (k + 1)) 0 := by
        rw [← List.replicate_succ]
        congr 1
        omega
      have hlength : (derivativesAt vec (indices.take k)).length = k := by
        rw [derivativesAt, List.length_map, List.length_take, Nat.min_eq_left (by omega)]
      rw [List.range_succ, List.foldlM_append, ih (by omega), Option.bind_eq_bind,
        Option.bind_some, List.foldlM_cons, List.getElem?_eq_getElem hk]
      simp only [Option.bind_eq_bind, Option.bind_some, hx, List.foldlM_nil]
      rw [htake, hrest, List.set_append_right _ _ (Nat.le_of_eq hlength), hlength, Nat.sub_self,
        List.set_cons_zero, List.append_assoc, List.singleton_append]
      rfl
  have hall := hprefix indices.length (Nat.le_refl _)
  rwa [List.take_length, Nat.sub_self, List.replicate_zero, List.append_nil] at hall

omit [CommRing R] in
theorem foldlM_write (e : EvalEnv R) (data : List R) (text : List Char) :
    data.foldlM (fun text x => some (text ++ (e.put x ++ ['\n']))) text
      = some (text ++ data.flatMap fun x => e.put x ++ ['\n']) := by
  induction data generalizing text with
  | nil => simp
  | cons x data ih =>
    rw [List.foldlM_cons, Option.bind_eq_bind, Option.bind_some, ih, List.flatMap_cons,
      List.append_assoc]

omit [CommRing R] in
/-- **The file that is written** has a line per derivative. -/
theorem writeToTextFile_eq (e : EvalEnv R) {data : List R} (hsize : data.length < 2 ^ 32)
    {fuel : ℕ} (hfuel : data.length < fuel) :
    writeToTextFile e fuel data = some (data.flatMap fun x => e.put x ++ ['\n']) := by
  rw [writeToTextFile, Loop.forRange_eq _ hsize hfuel]
  exact (foldlM_range_getElem? (fun text x => some (text ++ (e.put x ++ ['\n']))) data []).trans
    (foldlM_write e data [])

end Loops

/-! ### Files -/

theorem liftM_some {α : Type} (a : α) :
    (liftM (some a) : ExceptT String Option α) = pure a := rfl

section Files

open Tapefile

variable {T : Type} {F : NumGet T} (data : ℕ → T) {files : String → Option (List Char)}
  {filename : String} {text : List Char}

theorem readFromTextFile_eq {vs : List T} (hfile : files filename = some text)
    (h : F.Reads text vs) {fuel : ℕ} (hfuel : text.length + 1 < fuel) :
    readFromTextFile F data fuel files filename = pure vs := by
  rw [readFromTextFile, hfile]
  simp only [readLoop_eq data h hfuel]
  rfl

theorem readFromTextFile_eq_none (hfile : files filename = some text)
    (h : ¬∃ vs, F.Reads text vs) (fuel : ℕ) :
    (readFromTextFile F data fuel files filename).run = none := by
  rw [readFromTextFile, hfile]
  simp only [readLoop_eq_none data h]
  rfl

variable {R : Type} [CommRing R] {n : ℕ} {e : EvalEnv R} {indices : List ULong}
  {filenameGradients : String} {gradients : List R}

/-- **Seeding the gradient vector.** -/
theorem seedGradientVectorFromTextFile_eq (hindices : e.files filename = some (indices.flatMap indexLine))
    (hgradients : e.files filenameGradients = some text)
    (hreads : (doubleGet e.strtod).Reads text gradients)
    (hlength : gradients.length = indices.length) (hsize : indices.length < 2 ^ 32)
    (hin : ∀ index ∈ indices, index.toNat < n) {fuel : ℕ}
    (hfuel : (indices.flatMap indexLine).length + text.length + indices.length + 1 < fuel) :
    seedGradientVectorFromTextFile e fuel filename filenameGradients (fun _ : Fin n => (0 : R))
      = pure (seededVector indices gradients) := by
  rw [seedGradientVectorFromTextFile,
    readFromTextFile_eq e.ullData hindices (reads_indexLines indices) (by omega), pure_bind,
    readFromTextFile_eq e.doubleData hgradients hreads (by omega), pure_bind,
    if_neg (by rw [hlength]; exact fun h => h rfl),
    Loop.forRange_eq _ hsize (by omega), foldlM_seed hlength hin]
  simp only [zero_add]
  rfl

/-- **Reading the gradient vector.** -/
theorem readGradientVectorToTextFile_eq (hindices : e.files filename = some (indices.flatMap indexLine))
    (hsize : indices.length < 2 ^ 32) (hin : ∀ index ∈ indices, index.toNat < n)
    (vec : Fin n → R) {fuel : ℕ}
    (hfuel : (indices.flatMap indexLine).length + indices.length + 1 < fuel) :
    readGradientVectorToTextFile e fuel filename vec
      = pure ((derivativesAt vec indices).flatMap fun x => e.put x ++ ['\n']) := by
  have hlength : (derivativesAt vec indices).length = indices.length := List.length_map _
  rw [readGradientVectorToTextFile,
    readFromTextFile_eq e.ullData hindices (reads_indexLines indices) (by omega), pure_bind,
    Loop.forRange_eq _ hsize (by omega), foldlM_derivative? vec hin]
  rw [liftM_some, pure_bind, writeToTextFile_eq e (by omega) (by omega), liftM_some]

/-- A counter of the loops is not wide enough. -/
theorem seedGradientVectorFromTextFile_eq_none
    (hindices : e.files filename = some (indices.flatMap indexLine))
    (hgradients : e.files filenameGradients = some text)
    (hreads : (doubleGet e.strtod).Reads text gradients)
    (hlength : gradients.length = indices.length) (hsize : 2 ^ 32 ≤ indices.length) {fuel : ℕ}
    (hfuel : (indices.flatMap indexLine).length + text.length + 1 < fuel) (vec : Fin n → R) :
    (seedGradientVectorFromTextFile e fuel filename filenameGradients vec).run = none := by
  rw [seedGradientVectorFromTextFile,
    readFromTextFile_eq e.ullData hindices (reads_indexLines indices) (by omega), pure_bind,
    readFromTextFile_eq e.doubleData hgradients hreads (by omega), pure_bind,
    if_neg (by rw [hlength]; exact fun h => h rfl), Loop.forRange_eq_none _ hsize]
  rfl

/-- The sizes of the files do not match. -/
theorem seedGradientVectorFromTextFile_eq_error
    (hindices : e.files filename = some (indices.flatMap indexLine))
    (hgradients : e.files filenameGradients = some text)
    (hreads : (doubleGet e.strtod).Reads text gradients)
    (hlength : gradients.length ≠ indices.length) {fuel : ℕ}
    (hfuel : (indices.flatMap indexLine).length + text.length + 1 < fuel) (vec : Fin n → R) :
    ∃ message, seedGradientVectorFromTextFile e fuel filename filenameGradients vec
      = throw message := by
  rw [seedGradientVectorFromTextFile,
    readFromTextFile_eq e.ullData hindices (reads_indexLines indices) (by omega), pure_bind,
    readFromTextFile_eq e.doubleData hgradients hreads (by omega), pure_bind,
    if_pos (Ne.symm hlength)]
  exact ⟨_, rfl⟩

theorem readGradientVectorToTextFile_eq_none
    (hindices : e.files filename = some (indices.flatMap indexLine))
    (hsize : 2 ^ 32 ≤ indices.length) (vec : Fin n → R) {fuel : ℕ}
    (hfuel : (indices.flatMap indexLine).length + 1 < fuel) :
    (readGradientVectorToTextFile e fuel filename vec).run = none := by
  rw [readGradientVectorToTextFile,
    readFromTextFile_eq e.ullData hindices (reads_indexLines indices) (by omega), pure_bind,
    Loop.forRange_eq_none _ hsize]
  rfl

end Files

/-! ### The evaluation -/

/-- **Reading ends and loses nothing**: for a list of numbers, all of them are read. -/
def ReadsAll {T : Type} (F : NumGet T) (data : ℕ → T) (text : List Char) : Prop :=
  ∀ files filename, files filename = some text →
    ∃ result, (∃ bound, ∀ fuel ≥ bound, readFromTextFile F data fuel files filename = pure result) ∧
      ∀ vs, F.IsList text vs → result = vs

theorem readsAll_iff {T : Type} (F : NumGet T) (data : ℕ → T) (text : List Char) :
    ReadsAll F data text ↔
      (∃ vs, F.Reads text vs) ∧ ((∃ vs, F.IsList text vs) → EndsInSpace text) := by
  constructor
  · intro h
    obtain ⟨result, ⟨bound, hresult⟩, hlist⟩ := h (fun _ => some text) "" rfl
    by_cases hreads : ∃ vs, F.Reads text vs
    · refine ⟨hreads, ?_⟩
      rintro ⟨vs, hvs⟩
      by_contra hend
      -- the last number was dropped
      have hreads' := hvs.reads
      rw [if_neg hend] at hreads'
      have hall := hresult (bound + text.length + 2) (by omega)
      rw [readFromTextFile_eq data rfl hreads' (by omega), hlist vs hvs] at hall
      have hdrop : vs.dropLast = vs := by injection hall with hall; injection hall
      have hne : vs ≠ [] := by
        rintro rfl
        exact hend hvs.endsInSpace_of_nil
      have hlength := congrArg List.length hdrop
      rw [List.length_dropLast] at hlength
      have hpos := List.length_pos_iff.mpr hne
      omega
    · have hnone : (readFromTextFile F data bound (fun _ => some text) "").run = none :=
        readFromTextFile_eq_none data rfl hreads bound
      rw [hresult bound (Nat.le_refl _)] at hnone
      cases hnone
  · rintro ⟨⟨result, hreads⟩, hend⟩ files filename hfile
    refine ⟨result, ⟨text.length + 2, fun fuel hfuel => ?_⟩, fun vs hvs => ?_⟩
    · exact readFromTextFile_eq data hfile hreads (by omega)
    · have hreads' := hvs.reads
      rw [if_pos (hend ⟨vs, hvs⟩)] at hreads'
      exact hreads.unique hreads'

section Evaluation

variable {R : Type} [CommRing R] [DecidableEq R]

/-- The evaluation of a tape in one of the two directions. -/
def Tapefile.evaluate (t : Tapefile R) (forward : Bool) (tapeBuf : Buf (Block R))
    (vec : Fin t.numberOfBlocks.toNat → R) : Option (Fin t.numberOfBlocks.toNat → R) :=
  if forward then t.evaluateForward tapeBuf vec else t.evaluateBackward tapeBuf vec

/-- The names of the files: the indices and derivatives that are seeded, and the indices and
derivatives that are reported. -/
structure FileNames where
  seedIndices : String
  seedGradients : String
  reportIndices : String
  reportGradients : String

/-- The names of the files in a directory. -/
def fileNames (path : String) (forward : Bool) : FileNames :=
  if forward then
    ⟨path ++ "/dg-input-indices", path ++ "/dg-input-dots", path ++ "/dg-output-indices",
      path ++ "/dg-output-dots"⟩
  else
    ⟨path ++ "/dg-output-indices", path ++ "/dg-output-bars", path ++ "/dg-input-indices",
      path ++ "/dg-input-bars"⟩

theorem tapeEvaluation_eq (e : EvalEnv R) (fuel : ℕ) (path : String) (forward : Bool)
    (t : Tapefile R) (tapeBuf : Buf (Block R)) :
    tapeEvaluation e fuel path forward t tapeBuf = do
      let vec ← seedGradientVectorFromTextFile e fuel (fileNames path forward).seedIndices
        (fileNames path forward).seedGradients fun _ => 0
      let vec ← liftM (t.evaluate forward tapeBuf vec)
      let text ← readGradientVectorToTextFile e fuel (fileNames path forward).reportIndices vec
      return ((fileNames path forward).reportGradients, text) := by
  cases forward <;> rfl

/-- The files of an evaluation: index files as they are written by the recording pass, and
a list of as many derivatives as there are variables to be seeded. -/
structure EvaluationFiles (e : EvalEnv R) (names : FileNames) (n : ℕ) (seeds reports : List ULong)
    (gradients : List R) (text : List Char) : Prop where
  seedIndices : e.files names.seedIndices = some (seeds.flatMap indexLine)
  seedGradients : e.files names.seedGradients = some text
  reportIndices : e.files names.reportIndices = some (reports.flatMap indexLine)
  isList : (doubleGet e.strtod).IsList text gradients
  length_gradients : gradients.length = seeds.length
  seeds_lt : ∀ index ∈ seeds, index.toNat < n
  reports_lt : ∀ index ∈ reports, index.toNat < n

variable {e : EvalEnv R} {path : String} {forward : Bool} {t : Tapefile R}
  {seeds reports : List ULong} {gradients : List R} {text : List Char}

/-- **One derivative per variable** is seeded and reported, in order. -/
def EvaluatesAll (e : EvalEnv R) (path : String) (forward : Bool) (t : Tapefile R)
    (tapeBuf : Buf (Block R)) (reports : List ULong) (vec : Fin t.numberOfBlocks.toNat → R) :
    Prop :=
  ∃ bound, ∀ fuel ≥ bound, tapeEvaluation e fuel path forward t tapeBuf
    = pure ((fileNames path forward).reportGradients,
      (derivativesAt vec reports).flatMap fun x => e.put x ++ ['\n'])

variable {tapeBuf : Buf (Block R)} {vec : Fin t.numberOfBlocks.toNat → R} {fuel : ℕ}

/-- Enough fuel for all loops. -/
def fuelBound (seeds reports : List ULong) (text : List Char) : ℕ :=
  (seeds.flatMap indexLine).length + (reports.flatMap indexLine).length + text.length +
    seeds.length + reports.length + 2

/-- **The last derivative is dropped** if it reaches the end of the file, and the sizes of the
files do not match. -/
theorem tapeEvaluation_of_not_endsInSpace
    (hfiles : EvaluationFiles e (fileNames path forward) t.numberOfBlocks.toNat seeds reports
      gradients text)
    (hend : ¬EndsInSpace text) (hfuel : fuelBound seeds reports text ≤ fuel) :
    ∃ message, tapeEvaluation e fuel path forward t tapeBuf = throw message := by
  have hreads := hfiles.isList.reads
  rw [if_neg hend] at hreads
  have hne : gradients ≠ [] := by
    intro hnil
    have hlist := hfiles.isList
    rw [hnil] at hlist
    exact hend hlist.endsInSpace_of_nil
  have hpos := List.length_pos_iff.mpr hne
  have hlength := hfiles.length_gradients
  rw [fuelBound] at hfuel
  have hdrop : gradients.dropLast.length ≠ seeds.length := by
    rw [List.length_dropLast]
    omega
  obtain ⟨message, hmessage⟩ : ∃ message, seedGradientVectorFromTextFile e fuel _ _
      (fun _ : Fin t.numberOfBlocks.toNat => (0 : R)) = throw message :=
    seedGradientVectorFromTextFile_eq_error hfiles.seedIndices hfiles.seedGradients hreads hdrop
      (by omega) _
  refine ⟨message, ?_⟩
  rw [tapeEvaluation_eq, hmessage]
  rfl

/-- **A counter of 32 bits** is not wide enough. -/
theorem tapeEvaluation_of_size_le
    (hfiles : EvaluationFiles e (fileNames path forward) t.numberOfBlocks.toNat seeds reports
      gradients text)
    (hend : EndsInSpace text)
    (hsize : 2 ^ 32 ≤ seeds.length ∨ 2 ^ 32 ≤ reports.length)
    (heval : t.evaluate forward tapeBuf (seededVector seeds gradients) = some vec)
    (hfuel : fuelBound seeds reports text ≤ fuel) :
    (tapeEvaluation e fuel path forward t tapeBuf).run = none := by
  have hreads := hfiles.isList.reads
  rw [if_pos hend] at hreads
  rw [fuelBound] at hfuel
  rw [tapeEvaluation_eq]
  by_cases hseeds : 2 ^ 32 ≤ seeds.length
  · have hnone : (seedGradientVectorFromTextFile e fuel _ _
        fun _ : Fin t.numberOfBlocks.toNat => (0 : R)).run = none :=
      seedGradientVectorFromTextFile_eq_none hfiles.seedIndices hfiles.seedGradients hreads
        hfiles.length_gradients hseeds (by omega) _
    rw [ExceptT.run_bind, hnone]
    rfl
  · have hnone : (readGradientVectorToTextFile e fuel _ vec).run = none :=
      readGradientVectorToTextFile_eq_none hfiles.reportIndices (hsize.resolve_left hseeds) vec
        (by omega)
    rw [seedGradientVectorFromTextFile_eq hfiles.seedIndices hfiles.seedGradients hreads
      hfiles.length_gradients (by omega) hfiles.seeds_lt (by omega), pure_bind, heval,
      liftM_some, pure_bind, ExceptT.run_bind, hnone]
    rfl

/-- **The evaluation** seeds and reports one derivative per variable. -/
theorem tapeEvaluation_of_size_lt
    (hfiles : EvaluationFiles e (fileNames path forward) t.numberOfBlocks.toNat seeds reports
      gradients text)
    (hend : EndsInSpace text) (hseeds : seeds.length < 2 ^ 32) (hreports : reports.length < 2 ^ 32)
    (heval : t.evaluate forward tapeBuf (seededVector seeds gradients) = some vec)
    (hfuel : fuelBound seeds reports text ≤ fuel) :
    tapeEvaluation e fuel path forward t tapeBuf
      = pure ((fileNames path forward).reportGradients,
        (derivativesAt vec reports).flatMap fun x => e.put x ++ ['\n']) := by
  have hreads := hfiles.isList.reads
  rw [if_pos hend] at hreads
  rw [fuelBound] at hfuel
  rw [tapeEvaluation_eq, seedGradientVectorFromTextFile_eq hfiles.seedIndices hfiles.seedGradients
    hreads hfiles.length_gradients hseeds hfiles.seeds_lt (by omega), pure_bind, heval,
    liftM_some, pure_bind, readGradientVectorToTextFile_eq hfiles.reportIndices hreports
    hfiles.reports_lt vec (by omega), pure_bind]

end Evaluation

/-- **When reading ends and loses nothing**: each field that does not reach the end of the text
has to be a number, and a list of numbers has to end in white space.  The index files are
always read back.  A derivative is seeded and reported for each variable if the file with the
derivatives ends in white space, and there are less than `2^32` variables. -/
theorem textFiles_iff {T : Type} (F : NumGet T) (data : ℕ → T) (text : List Char) :
    (ReadsAll F data text ↔
      (∃ vs, F.Reads text vs) ∧ ((∃ vs, F.IsList text vs) → EndsInSpace text)) ∧
    (∀ (data : ℕ → ULong) (indices : List ULong),
      ullGet.IsList (indices.flatMap indexLine) indices ∧
        ReadsAll ullGet data (indices.flatMap indexLine)) ∧
    ∀ {R : Type} [CommRing R] [DecidableEq R] (e : EvalEnv R) (path : String) (forward : Bool)
      (t : Tapefile R) (tapeBuf : Buf (Block R)) (seeds reports : List ULong) (gradients : List R)
      (text : List Char) (vec : Fin t.numberOfBlocks.toNat → R),
      EvaluationFiles e (fileNames path forward) t.numberOfBlocks.toNat seeds reports gradients
        text →
      t.evaluate forward tapeBuf (seededVector seeds gradients) = some vec →
      (EvaluatesAll e path forward t tapeBuf reports vec ↔
        EndsInSpace text ∧ seeds.length < 2 ^ 32 ∧ reports.length < 2 ^ 32) := by
  refine ⟨readsAll_iff F data text, fun data indices => ⟨isList_indexLines indices, ?_⟩, ?_⟩
  · exact (readsAll_iff _ _ _).mpr
      ⟨⟨indices, reads_indexLines indices⟩, fun _ => endsInSpace_indexLines indices⟩
  · intro R _ _ e path forward t tapeBuf seeds reports gradients text vec hfiles heval
    constructor
    · rintro ⟨bound, hall⟩
      have hresult := hall (bound + fuelBound seeds reports text) (Nat.le_add_right _ _)
      have hend : EndsInSpace text := by
        by_contra hend
        obtain ⟨message, hmessage⟩ := tapeEvaluation_of_not_endsInSpace hfiles hend
          (Nat.le_add_left _ bound)
        rw [hmessage] at hresult
        cases hresult
      refine ⟨hend, ?_⟩
      by_contra hsize
      have hnone := tapeEvaluation_of_size_le hfiles hend (by omega) heval
        (Nat.le_add_left _ bound)
      rw [hresult] at hnone
      cases hnone
    · rintro ⟨hend, hseeds, hreports⟩
      exact ⟨fuelBound seeds reports text, fun fuel hfuel =>
        tapeEvaluation_of_size_lt hfiles hend hseeds hreports heval hfuel⟩

/-- All files consist of the line `1`. -/
def oneEnv : EvalEnv ℤ where
  files _ := some ['1', '\n']
  strtod field := (Nat.ofDigitChars 10 field 0, false)
  put x := (toString x).toList
  ullData _ := 0
  doubleData _ := 0

theorem files_oneEnv (filename : String) : oneEnv.files filename = some ['1', '\n'] := rfl

theorem lines_one : [(1 : ULong)].flatMap indexLine = ['1', '\n'] := by decide

theorem evaluationFiles_oneEnv (path : String) (forward : Bool) :
    EvaluationFiles oneEnv (fileNames path forward) 4 [1] [1] [1] ['1', '\n'] where
  seedIndices := (files_oneEnv _).trans (congrArg some lines_one.symm)
  seedGradients := files_oneEnv _
  reportIndices := (files_oneEnv _).trans (congrArg some lines_one.symm)
  isList := by
    have hblank : (doubleGet oneEnv.strtod).IsList ['\n'] [] :=
      .blank (List.forall_mem_singleton.mpr rfl)
    change (doubleGet oneEnv.strtod).IsList ([] ++ (['1'] ++ ['\n'])) [1]
    refine .number (List.forall_mem_nil _) ⟨rfl, rfl⟩ ?_ hblank
    intro c hc
    cases hc
    rfl
  length_gradients := rfl
  seeds_lt index h := by rw [List.mem_singleton.mp h]; decide
  reports_lt index h := by rw [List.mem_singleton.mp h]; decide

/-- The theorem applies to the evaluation of a tape with one variable. -/
theorem textFiles_iff_oneEnv :
    EvaluatesAll oneEnv "path" false Tapefile.sharingTape (Buf.fill 2 ⟨0, 0, 0, 0⟩) [1]
      (Tapefile.sharingTape.backwardSweep (seededVector [1] [1])) := by
  have ht : Tapefile.sharingTape.OperandsBefore := by
    unfold Tapefile.OperandsBefore Tapefile.OperandBefore
    decide
  exact ((textFiles_iff ullGet (fun _ => 0) []).2.2 oneEnv "path" false Tapefile.sharingTape _ [1] [1] [1] _ _
    (evaluationFiles_oneEnv "path" false) (Tapefile.evaluateBackward_eq ht rfl _)).mpr
    ⟨by decide, by decide, by decide⟩

/-- A number at the end of the file is dropped, and reading does not end if there is no
number. -/
theorem not_readsAll :
    ullGet.IsList ['1'] [1] ∧ ¬ReadsAll ullGet (fun _ => 0) ['1'] ∧
      ∀ fuel, readLoop (doubleGet oneEnv.strtod) (fun _ => 0) fuel ['n', 'a', 'n', '\n'] = none := by
  have hlist : ullGet.IsList ['1'] [1] := by
    change ullGet.IsList ([] ++ (['1'] ++ [])) [1]
    refine .number (List.forall_mem_nil _) ⟨rfl, by decide⟩ ?_ (.blank (List.forall_mem_nil _))
    intro c hc
    cases hc
  refine ⟨hlist, fun h => ?_, fun fuel => readLoop_eq_none _ ?_ fuel⟩
  · exact absurd (((readsAll_iff _ _ _).mp h).2 ⟨[1], hlist⟩) (by decide)
  · rintro ⟨vs, hvs⟩
    cases hvs with
    | stop hend => exact absurd hend (by decide)
    | number _ hv _ =>
      have hfail : ((doubleGet oneEnv.strtod).convert
          ((doubleGet oneEnv.strtod).firstField ['n', 'a', 'n', '\n']).1).2 = true := by decide
      rw [hv] at hfail
      cases hfail

end Derivgrind
