import Derivgrind.Lib.Loop
import Derivgrind.Tape.File
import Mathlib.Data.List.TakeWhile

/-!
# The option `--record-stop`

With `--record-stop=<i1>,..,<ik>`, the debugger is entered when one of the given indices
is assigned.  The function `dg_post_clo_init` parses the list into an array, whose end is
marked by a zero.

A token whose value is zero, such as a token that is no number, thus ends the list early,
and the tokens behind it are ignored.

## Main definitions

* `strtokR`, `strtoull10` — the functions of Valgrind.
* `parseRecordStop` — parsing the option.
* `tokens`, `listedIndices` — the tokens of the string and their values.
* `StopsAsListed` — **the debugger is entered for the listed indices.**

## Main results

* `parseRecordStop_eq` — all accesses are inside the array.
* `recordStop_iff` — when the debugger is entered for the listed indices.
-/

namespace Derivgrind

open ChunkedLog

/-! ### Parsing -/

/-- `VG_(strtok_r)` with the delimiter `,`: the next token, and what is behind it. -/
def strtokR (s : List Char) : Option (List Char) × List Char :=
  match s.dropWhile (· == ',') with
  | [] => (none, [])
  | c :: t => (some ((c :: t).takeWhile (· != ',')), ((c :: t).dropWhile (· != ',')).drop 1)

/-- `VG_(isspace)`. -/
def isSpace (c : Char) : Bool :=
  c == ' ' || c == '\n' || c == '\t' || c == '\x0c' || c == '\x0b' || c == '\r'

/-- `VG_(strtoull10)`. -/
def strtoull10 (str : List Char) : ULong :=
  let str := str.dropWhile isSpace
  let str := if str.head? = some '+' then str.tail else str
  (str.takeWhile Char.isDigit).foldl (fun n c => 10 * n + BitVec.ofNat 64 (c.toNat - 48)) 0

/-- The variables of the loop over the tokens. -/
structure ParseState where
  indexstr : Option (List Char)
  ssaveptr : List Char
  i : ℕ
  indices : Buf ULong

/-- The body of the loop over the tokens. -/
def parseBody (s : ParseState) : Option ParseState := do
  let indexstr ← s.indexstr
  let indices ← s.indices.set? s.i (strtoull10 indexstr)
  let next := strtokR s.ssaveptr
  some ⟨next.1, next.2, s.i + 1, indices⟩

/-- The part of `dg_post_clo_init` that parses the string of the option: the array, up to the
terminating zero.  Initially, the contents of the array are arbitrary. -/
def parseRecordStop (fuel : ℕ) (contents : ℕ → ULong) (str : List Char) : Option (List ULong) := do
  let first := strtokR str
  let s ← Loop.run (fun s => s.indexstr.isSome) parseBody fuel
    ⟨first.1, first.2, 0, ⟨str.length / 2 + 2, contents⟩⟩
  let indices ← s.indices.set? s.i 0
  indices.front? (s.i + 1)

/-! ### Tokens -/

/-- The tokens of a string. -/
def tokens (str : List Char) : List (List Char) := (str.splitOn ',').filter (· ≠ [])

/-- The values of the tokens. -/
def listedIndices (str : List Char) : List ULong := (tokens str).map strtoull10

theorem tokens_comma (s : List Char) : tokens (',' :: s) = tokens s := by
  rw [tokens, List.splitOn_cons_eq_if_modifyHead]
  rfl

theorem tokens_dropWhile (s : List Char) : tokens (s.dropWhile (· == ',')) = tokens s := by
  induction s with
  | nil => rfl
  | cons c s ih =>
    rw [List.dropWhile_cons]
    split
    · next hc => rw [ih, eq_of_beq hc, tokens_comma]
    · rfl

/-- A word and what is behind the comma that ends it. -/
theorem tokens_word {w : List Char} (hne : w ≠ []) (hw : ',' ∉ w) (s : List Char) :
    tokens (w ++ ',' :: s) = w :: tokens s := by
  rw [tokens, List.splitOn_append_cons_of_beq w s (beq_self_eq_true ','),
    List.splitOn_eq_singleton hw, List.singleton_append, List.filter_cons_of_pos (by simpa using hne)]
  rfl

theorem tokens_lastWord {w : List Char} (hne : w ≠ []) (hw : ',' ∉ w) : tokens w = [w] := by
  rw [tokens, List.splitOn_eq_singleton hw, List.filter_cons_of_pos (by simpa using hne)]
  rfl

/-- Where the scan for a delimiter or for a token stops. -/
theorem head_of_dropWhile {p : Char → Bool} {s t : List Char} {c : Char}
    (h : s.dropWhile p = c :: t) : p c = false := by
  have hne : s.dropWhile p ≠ [] := by rw [h]; exact List.cons_ne_nil c t
  have hhead := List.head_dropWhile_not p hne
  simp only [h, List.head_cons] at hhead
  exact hhead

/-- What a call of `strtok_r` finds: the first token, unless there is none. -/
inductive NextToken (s : List Char) : Option (List Char) × List Char → Prop
  | done (h : tokens s = []) : NextToken s (none, [])
  | word (token rest : List Char) (h : tokens s = token :: tokens rest)
      (hlength : 2 + rest.length ≤ s.length ∨ rest = [] ∧ 1 ≤ s.length) :
      NextToken s (some token, rest)

/-- **The function `strtok_r` finds the tokens** one after the other. -/
theorem strtokR_next (s : List Char) : NextToken s (strtokR s) := by
  have htokens := tokens_dropWhile s
  have hlength : (s.dropWhile (· == ',')).length ≤ s.length :=
    (List.dropWhile_suffix _).length_le
  unfold strtokR
  cases h : s.dropWhile (· == ',') with
  | nil =>
    rw [h] at htokens
    exact .done htokens.symm
  | cons c t =>
    have hc : (c == ',') = false := head_of_dropWhile (p := (· == ',')) h
    rw [h] at htokens hlength
    set word := (c :: t).takeWhile (· != ',') with hword
    have hsplit : word ++ (c :: t).dropWhile (· != ',') = c :: t := List.takeWhile_append_dropWhile
    have hcomma : ',' ∉ word := fun hmem => absurd (List.mem_takeWhile_imp hmem) (by decide)
    have hpos : word ≠ [] := by
      rw [hword, List.takeWhile_cons, if_pos (by simp [bne, hc])]
      exact List.cons_ne_nil _ _
    have hone : 1 ≤ word.length := List.length_pos_iff.mpr hpos
    change NextToken s (some word, ((c :: t).dropWhile (· != ',')).drop 1)
    cases hd : (c :: t).dropWhile (· != ',') with
    | nil =>
      -- the token finishes the string
      rw [hd, List.append_nil] at hsplit
      refine .word word [] ?_ (.inr ⟨rfl, ?_⟩)
      · rw [← htokens, ← hsplit, tokens_lastWord hpos hcomma]
        rfl
      · rw [← hsplit] at hlength
        omega
    | cons e d =>
      have he : e = ',' := by simpa using head_of_dropWhile hd
      rw [hd, he] at hsplit
      refine .word word d ?_ (.inl ?_)
      · rw [← htokens, ← hsplit, tokens_word hpos hcomma]
      · rw [← hsplit, List.length_append, List.length_cons] at hlength
        omega

/-- Each token but the last one is followed by a comma. -/
theorem two_mul_length_tokens (s : List Char) : 2 * (tokens s).length ≤ s.length + 1 := by
  induction hts : tokens s generalizing s with
  | nil => exact Nat.zero_le _
  | cons token ts ih =>
    have hnext := strtokR_next s
    generalize strtokR s = r at hnext
    cases hnext with
    | done h => rw [hts] at h; cases h
    | word token' rest h hlength =>
      rw [hts] at h
      obtain ⟨-, rfl⟩ := List.cons.inj h
      have hrest := ih rest rfl
      rw [List.length_cons]
      rcases hlength with hlength | ⟨rfl, hlength⟩
      · omega
      · have hnil : tokens [] = [] := rfl
        rw [hnil, List.length_nil]
        omega

/-! ### The array -/

/-- **The loop over the tokens** stores their values. -/
theorem run_parseBody (s : List Char) (i : ℕ) (indices : Buf ULong) {fuel : ℕ}
    (hfuel : (tokens s).length < fuel) :
    Loop.run (fun s => s.indexstr.isSome) parseBody fuel
        ⟨(strtokR s).1, (strtokR s).2, i, indices⟩
      = (indices.setAll? i (listedIndices s)).map fun indices =>
        ⟨none, [], i + (tokens s).length, indices⟩ := by
  induction hts : tokens s generalizing s i indices fuel with
  | nil =>
    obtain ⟨fuel, rfl⟩ := Nat.exists_eq_succ_of_ne_zero (Nat.ne_of_gt (Nat.zero_lt_of_lt hfuel))
    have hnext := strtokR_next s
    generalize strtokR s = r at hnext ⊢
    cases hnext with
    | done h =>
      rw [Loop.run_of_not_cond rfl, listedIndices, hts]
      rfl
    | word token' rest h => rw [hts] at h; cases h
  | cons token ts ih =>
    obtain ⟨fuel, rfl⟩ := Nat.exists_eq_succ_of_ne_zero (Nat.ne_of_gt (Nat.zero_lt_of_lt hfuel))
    have hnext := strtokR_next s
    generalize strtokR s = r at hnext ⊢
    cases hnext with
    | done h => rw [hts] at h; cases h
    | word token' rest h =>
      rw [hts] at h
      obtain ⟨rfl, rfl⟩ := List.cons.inj h
      rw [listedIndices, hts, List.map_cons, Buf.setAll?]
      -- One token is stored, and the next one is looked for in the rest.
      have hbody : parseBody ⟨some token, rest, i, indices⟩
          = (indices.set? i (strtoull10 token)).map fun indices =>
            ⟨(strtokR rest).1, (strtokR rest).2, i + 1, indices⟩ := by
        simp only [parseBody, Option.bind_eq_bind, Option.bind_some]
        rw [Option.map_eq_bind]
        rfl
      cases hset : indices.set? i (strtoull10 token) with
      | none =>
        rw [hset] at hbody
        simp [Loop.run, hbody]
      | some indices' =>
        rw [hset] at hbody
        rw [Loop.run_of_cond rfl hbody, ih rest (i + 1) indices' _ rfl]
        · rw [Option.bind_some, List.length_cons, Nat.add_assoc, Nat.add_comm 1]
          rfl
        · rw [hts, List.length_cons] at hfuel
          omega

/-- **All accesses are inside the array.** -/
theorem parseRecordStop_eq (contents : ℕ → ULong) (str : List Char) {fuel : ℕ}
    (hfuel : (tokens str).length < fuel) :
    parseRecordStop fuel contents str = some (listedIndices str ++ [0]) := by
  have hlength : (listedIndices str).length = (tokens str).length := List.length_map _
  have hbound := two_mul_length_tokens str
  obtain ⟨indices, hset, hsize, -, hdata⟩ := Buf.setAll?_spec (listedIndices str)
    ⟨str.length / 2 + 2, contents⟩ 0 (by rw [hlength]; simp only; omega)
  rw [hlength, ← List.range_eq_range'] at hdata
  have hsize : indices.size = str.length / 2 + 2 := hsize
  -- the terminating zero is behind the values
  have hlast : indices.set? (tokens str).length 0
      = some ⟨indices.size, Function.update indices.data (tokens str).length 0⟩ := by
    rw [Buf.set?, if_pos (by omega)]
  have hvalues : (List.range (tokens str).length).map
      (Function.update indices.data (tokens str).length 0) = listedIndices str := by
    rw [← hdata]
    refine List.map_congr_left fun j hj => ?_
    have hne : j ≠ (tokens str).length := Nat.ne_of_lt (List.mem_range.mp hj)
    exact Function.update_of_ne hne _ _
  simp only [parseRecordStop, run_parseBody str 0 _ hfuel, hset, Option.map_some, Nat.zero_add,
    Option.bind_eq_bind, Option.bind_some, hlast]
  rw [Buf.front?, if_pos (by simp only; omega), List.range_succ, List.map_append, hvalues]
  simp

/-! ### Runs -/

/-- The indices for which the debugger was entered. -/
def stops (events : List TapeEvent) : List ULong :=
  events.filterMap fun event =>
    match event with
    | .recordStop index => some index
    | .unwrappedOperand _ => none

/-- Whether a call assigns an index: it makes a statement, and is not disabled. -/
def TapeCall.assigns (o : TapeOptions) (s : TapeState) : TapeCall → Bool
  | .add tid i1 i2 _ _ => s.dgDisable tid = 0 && (i1 ≠ 0 || i2 ≠ 0 || o.typegrind)
  | .addNoActivityAnalysis tid .. => s.dgDisable tid = 0
  | .disable .. => false

/-- The indices that are assigned in a run. -/
def assignedIndices (o : TapeOptions) : List TapeCall → TapeState → List ULong
  | [], _ => []
  | c :: cs, s =>
      (if c.assigns o s then [s.nextindex] else []) ++
        match c.exec o s with
        | some (_, s') => assignedIndices o cs s'
        | none => []

/-- The indices of the option as they are read back. -/
def TapeOptions.stopIndices (o : TapeOptions) : List ULong :=
  (o.recordingStopIndices.getD []).takeWhile (· ≠ 0)

section Run

variable {o : TapeOptions} {s : TapeState}

theorem stops_append (es es' : List TapeEvent) : stops (es ++ es') = stops es ++ stops es' :=
  List.filterMap_append

theorem stops_recordStops (o : TapeOptions) (n : ULong) :
    stops (recordStops o n) = o.stopIndices.filter (n = ·) := by
  have hmap : ∀ l : List ULong, stops (l.map TapeEvent.recordStop) = l := by
    intro l
    rw [stops, List.filterMap_map]
    exact List.filterMap_some
  unfold recordStops TapeOptions.stopIndices
  cases o.recordingStopIndices with
  | none => rfl
  | some indices => exact hmap _

/-- Writing or replacing the full buffer. -/
theorem exists_flushTape (o : TapeOptions) {s : TapeState}
    (hsize : s.bufferTape.size = 4 * BUFSIZE) :
    ∃ s', flushTape o s = some s' ∧ s'.bufferTape.size = 4 * BUFSIZE ∧ s'.events = s.events := by
  unfold flushTape
  split
  · split
    · exact ⟨_, rfl, rfl, rfl⟩
    · rw [Buf.front?, if_pos (by omega)]
      exact ⟨_, rfl, hsize, rfl⟩
  · exact ⟨s, rfl, hsize, rfl⟩

/-- **One statement**: the debugger is entered according to the index that is assigned. -/
theorem tapeAddStatementNoActivityAnalysis_stops (o : TapeOptions) (tid : ThreadId)
    (i1 i2 d1 d2 : ULong) (hsize : s.bufferTape.size = 4 * BUFSIZE) :
    ∃ r s', tapeAddStatementNoActivityAnalysis o tid i1 i2 d1 d2 s = some (r, s') ∧
      s'.bufferTape.size = 4 * BUFSIZE ∧
      stops s'.events = stops s.events ++
        if s.dgDisable tid = 0 then o.stopIndices.filter (s.nextindex = ·) else [] := by
  by_cases hen : s.dgDisable tid = 0
  · have hpos : s.nextindex.toNat % BUFSIZE < BUFSIZE := Nat.mod_lt _ BUFSIZE_pos
    obtain ⟨b, hb, hbsize, -, -⟩ := Buf.setAll?_spec [i1, i2, d1, d2] s.bufferTape
      (4 * (s.nextindex.toNat % BUFSIZE)) (by
        rw [hsize]
        simp only [List.length_cons, List.length_nil]
        omega)
    obtain ⟨s₂, hs₂, hsize₂, hevents⟩ := exists_flushTape o (s := { s with
      bufferTape := b
      events := s.events ++ recordStops o s.nextindex
      nextindex := s.nextindex + 1 }) (hbsize.trans hsize)
    refine ⟨if o.typegrind then 0 else s₂.nextindex - 1, { s₂ with
      events := s₂.events ++ if i1 = onesIndex ∨ i2 = onesIndex then
        [TapeEvent.unwrappedOperand (s₂.nextindex - 1)] else [] }, ?_, hsize₂, ?_⟩
    · unfold tapeAddStatementNoActivityAnalysis
      rw [if_neg (by simpa using hen)]
      simp only [Buf.setAll?, Option.bind_eq_bind, Option.bind_eq_some_iff, Option.some.injEq]
        at hb ⊢
      obtain ⟨b₁, hb₁, b₂, hb₂, b₃, hb₃, b₄, hb₄, rfl⟩ := hb
      exact ⟨b₁, hb₁, b₂, hb₂, b₃, hb₃, b₄, hb₄, s₂, hs₂, rfl⟩
    · have hwarning : stops (if i1 = onesIndex ∨ i2 = onesIndex then
          [TapeEvent.unwrappedOperand (s₂.nextindex - 1)] else []) = [] := by
        split <;> rfl
      rw [stops_append, hwarning, List.append_nil, hevents, stops_append, stops_recordStops,
        if_pos hen]
  · refine ⟨if o.typegrind then onesIndex else 0, s, ?_, hsize, ?_⟩
    · rw [tapeAddStatementNoActivityAnalysis, if_pos hen]
    · rw [if_neg hen, List.append_nil]

/-- **One call.** -/
theorem TapeCall.exec_stops (c : TapeCall) (hsize : s.bufferTape.size = 4 * BUFSIZE) :
    ∃ r s', c.exec o s = some (r, s') ∧ s'.bufferTape.size = 4 * BUFSIZE ∧
      stops s'.events = stops s.events ++
        if c.assigns o s then o.stopIndices.filter (s.nextindex = ·) else [] := by
  cases c with
  | add tid i1 i2 d1 d2 =>
    obtain ⟨r, s', hs', hsize', hstops⟩ :=
      tapeAddStatementNoActivityAnalysis_stops o tid i1 i2 d1 d2 hsize
    by_cases hidle : i1 = 0 ∧ i2 = 0 ∧ o.typegrind = false
    · refine ⟨0, s, if_pos hidle, hsize, ?_⟩
      simp [TapeCall.assigns, hidle]
    · refine ⟨r, s', (if_neg hidle).trans hs', hsize', hstops.trans ?_⟩
      have hactive : (i1 ≠ 0 || i2 ≠ 0 || o.typegrind) = true := by
        simp only [Bool.or_eq_true, decide_eq_true_eq]
        grind
      rw [TapeCall.assigns, hactive, Bool.and_true]
      simp
  | addNoActivityAnalysis tid i1 i2 d1 d2 =>
    obtain ⟨r, s', hs', hsize', hstops⟩ :=
      tapeAddStatementNoActivityAnalysis_stops o tid i1 i2 d1 d2 hsize
    refine ⟨r, s', hs', hsize', hstops.trans ?_⟩
    simp [TapeCall.assigns]
  | disable tid plus minus => exact ⟨_, _, rfl, hsize, by simp [TapeCall.assigns]⟩

/-- **Runs**: the debugger is entered according to the indices that are assigned. -/
theorem runCalls_stops (cs : List TapeCall) (hsize : s.bufferTape.size = 4 * BUFSIZE) :
    ∃ rs s', runCalls o cs s = some (rs, s') ∧
      stops s'.events = stops s.events ++
        (assignedIndices o cs s).flatMap fun n => o.stopIndices.filter (n = ·) := by
  induction cs generalizing s with
  | nil => exact ⟨[], s, rfl, (List.append_nil _).symm⟩
  | cons c cs ih =>
    obtain ⟨r, s₁, hs₁, hsize₁, hstops₁⟩ := c.exec_stops (o := o) hsize
    obtain ⟨rs, s', hs', hstops⟩ := ih hsize₁
    refine ⟨r :: rs, s', by simp [runCalls, hs₁, hs'], ?_⟩
    rw [hstops, hstops₁, assignedIndices, hs₁, List.flatMap_append, List.append_assoc]
    congr 2
    split <;> simp

end Run

/-! ### Whole runs -/

/-- **The debugger is entered for the listed indices**, among those that are assigned in a
run. -/
def StopsAsListed (o : TapeOptions) (str : List Char) (calls : List TapeCall) : Prop :=
  ∃ rs s, runCalls o calls dgBarTapeInitialize = some (rs, s) ∧
    ∀ n ∈ assignedIndices o calls dgBarTapeInitialize,
      n ∈ stops s.events ↔ n ∈ listedIndices str

/-- The indices in front of the first zero are read back. -/
theorem takeWhile_append_zero (l : List ULong) :
    (l ++ [0]).takeWhile (· ≠ 0) = l.takeWhile (· ≠ 0) := by
  induction l with
  | nil => simp
  | cons x l ih => rw [List.cons_append, List.takeWhile_cons, List.takeWhile_cons, ih]

theorem stopsAsListed_iff (o : TapeOptions) (str : List Char)
    (hparse : o.recordingStopIndices = some (listedIndices str ++ [0])) (calls : List TapeCall) :
    StopsAsListed o str calls ↔ ∀ n ∈ assignedIndices o calls dgBarTapeInitialize,
      n ∈ listedIndices str → n ∈ (listedIndices str).takeWhile (· ≠ 0) := by
  have hindices : o.stopIndices = (listedIndices str).takeWhile (· ≠ 0) := by
    rw [TapeOptions.stopIndices, hparse]
    exact takeWhile_append_zero _
  obtain ⟨rs, s, hs, hstops⟩ := runCalls_stops (o := o) calls (s := dgBarTapeInitialize) rfl
  have hmem : ∀ n ∈ assignedIndices o calls dgBarTapeInitialize,
      n ∈ stops s.events ↔ n ∈ (listedIndices str).takeWhile (· ≠ 0) := by
    intro n hn
    have hinit : stops dgBarTapeInitialize.events = [] := rfl
    rw [hstops, hinit, List.nil_append, List.mem_flatMap, ← hindices]
    constructor
    · rintro ⟨n', -, hn'⟩
      exact (List.mem_filter.mp hn').1
    · intro hlisted
      exact ⟨n, hn, List.mem_filter.mpr ⟨hlisted, by simp⟩⟩
  constructor
  · rintro ⟨rs', s', hs', hlisted⟩ n hn hin
    rw [hs] at hs'
    obtain ⟨-, rfl⟩ := Prod.mk.inj (Option.some_inj.mp hs')
    exact (hmem n hn).mp ((hlisted n hn).mpr hin)
  · intro h
    refine ⟨rs, s, hs, fun n hn => (hmem n hn).trans ⟨fun hin => ?_, h n hn⟩⟩
    exact (List.takeWhile_prefix _).subset hin

/-- **When the debugger is entered for the listed indices.**  Parsing always stays inside the
array; in a run, the listed indices that are assigned have to be in front of a zero. -/
theorem recordStop_iff (o : TapeOptions) (contents : ℕ → ULong) (str : List Char) :
    ∃ indices, (∀ fuel > str.length + 1, parseRecordStop fuel contents str = some indices) ∧
      ∀ calls, StopsAsListed { o with recordingStopIndices := some indices } str calls ↔
        ∀ n ∈ assignedIndices { o with recordingStopIndices := some indices } calls
            dgBarTapeInitialize,
          n ∈ listedIndices str → n ∈ (listedIndices str).takeWhile (· ≠ 0) := by
  refine ⟨listedIndices str ++ [0], fun fuel hfuel => ?_, stopsAsListed_iff _ str rfl⟩
  have hbound := two_mul_length_tokens str
  exact parseRecordStop_eq contents str (by omega)

/-- The index behind a zero is ignored. -/
theorem not_stopsAsListed_zero :
    parseRecordStop 5 (fun _ => 0) "0,1".toList = some [0, 1, 0] ∧
      ¬StopsAsListed ⟨false, false, false, some [0, 1, 0]⟩ "0,1".toList
        [.addNoActivityAnalysis 0 0 0 0 0] := by
  have hlisted : listedIndices "0,1".toList = [0, 1] := by decide
  refine ⟨by decide, fun h => ?_⟩
  rw [stopsAsListed_iff _ _ (by rw [hlisted]; rfl), hlisted] at h
  have hassigned : (1 : ULong) ∈ assignedIndices ⟨false, false, false, some [0, 1, 0]⟩
      [.addNoActivityAnalysis 0 0 0 0 0] dgBarTapeInitialize :=
    List.mem_append_left _ (List.mem_singleton.mpr rfl)
  exact absurd (h 1 hassigned (by decide)) (by decide)

end Derivgrind
