import Derivgrind.Client.Wrapper
import Derivgrind.Lib.Loop

/-!
# The warning of the math wrappers

In bit-trick-finding mode, a wrapper of a math function passes the flags of its arguments to
`dg_trick_warn_clientcode`, which warns about active discrete data and prints the flags from
the most to the least significant byte.

The loops that print the flags count an unsigned number down, and compare it with zero.  The
model records what they do: accesses to the arrays, where subscripts are taken modulo `2^64`,
and what is printed.

## Main definitions

* `ReportEvent` — what the function does.
* `TrickReport.dgTrickWarnClientcode` — the function with its loops.
* `TrickReport.ReportsOnce` — **each byte is reported once** if there is something to warn about.

## Main results

* `TrickReport.reportsOnce_iff` — this is so only if there is nothing to warn about.
* `TrickReport.dgTrickWarnClientcode_refines` — the loops do what the model of the wrappers says.
-/

namespace Derivgrind

/-- The arguments of `dg_trick_warn_clientcode`: activity and discreteness flags. -/
inductive FlagArray
  | fLo
  | fHi
  deriving DecidableEq, Repr

/-- What `dg_trick_warn_clientcode` does. -/
inductive ReportEvent
  /-- A read access to a byte. -/
  | access (array : FlagArray) (subscript : ULong)
  | print (text : String)
  /-- `printf("%02X",byte)`. -/
  | printByte (byte : Byte)
  /-- `backtrace` and `backtrace_symbols_fd`. -/
  | backtrace
  deriving DecidableEq, Repr

namespace TrickReport

/-! ### The loops -/

section Code

/- The bytes at the addresses of the arrays, and beyond. -/
variable (mem : FlagArray → ULong → Byte) (fuel : ℕ) (size : ULong)

/-- A byte has a flag set in both arrays. -/
def trick (i : ULong) : Bool := mem .fLo i &&& mem .fHi i ≠ 0

/-- The loop that looks for active discrete data: whether there is some. -/
def checkFlags (events : List ReportEvent) : Option (Bool × List ReportEvent) :=
  Loop.forRange 64 fuel size.toNat (fun i s =>
    let i := BitVec.ofNat 64 i
    some (s.1 || trick mem i, s.2 ++ [.access .fLo i, .access .fHi i])) (false, events)

/-- The loop that prints the bytes of an array. -/
def printFlags (array : FlagArray) (events : List ReportEvent) :
    Option (List ReportEvent) :=
  (Loop.run (fun s => decide (s.1 ≥ 0))
    (fun s => some (s.1 - 1, s.2 ++ [.access array s.1, .printByte (mem array s.1)])) fuel
    (size - 1, events)).map Prod.snd

/-- The text in front of the warning. -/
def warning : String := "Active discrete data used as floating-point argument to math function.\n"

/-- `dg_trick_warn_clientcode`. -/
def dgTrickWarnClientcode : Option (List ReportEvent) := do
  let (warn, events) ← checkFlags mem fuel size []
  if warn then
    let events ← printFlags mem fuel size .fLo
      (events ++ [.print warning, .print "Activity bits: 0x"])
    let events ← printFlags mem fuel size .fHi (events ++ [.print ". Discreteness bits: 0x"])
    some (events ++ [.print "\nAt\n", .backtrace, .print "\n"])
  else some events

end Code

/-! ### What the loops do -/

section Loops

variable (mem : FlagArray → ULong → Byte) (size : ULong)

/-- The accesses of the first loop. -/
def checkEvents (n : ℕ) : List ReportEvent :=
  (List.range n).flatMap fun i =>
    [.access .fLo (BitVec.ofNat 64 i), .access .fHi (BitVec.ofNat 64 i)]

/-- Some byte has a flag set in both arrays. -/
def anyTrick (n : ℕ) : Bool := (List.range n).any fun i => trick mem (BitVec.ofNat 64 i)

theorem anyTrick_succ (n : ℕ) :
    anyTrick mem (n + 1) = (anyTrick mem n || trick mem (BitVec.ofNat 64 n)) := by
  rw [anyTrick, List.range_succ, List.any_append, List.any_cons, List.any_nil, Bool.or_false]
  rfl

theorem checkEvents_succ (n : ℕ) :
    checkEvents (n + 1) = checkEvents n ++
      [.access .fLo (BitVec.ofNat 64 n), .access .fHi (BitVec.ofNat 64 n)] := by
  rw [checkEvents, List.range_succ, List.flatMap_append, List.flatMap_singleton]
  rfl

theorem mem_checkEvents {n : ℕ} {event : ReportEvent} (h : event ∈ checkEvents n) :
    ∃ i array, i < n ∧ event = .access array (BitVec.ofNat 64 i) := by
  obtain ⟨i, hi, hmem⟩ := List.mem_flatMap.mp h
  rcases List.mem_pair.mp hmem with rfl | rfl
  · exact ⟨i, .fLo, List.mem_range.mp hi, rfl⟩
  · exact ⟨i, .fHi, List.mem_range.mp hi, rfl⟩

/-- **The first loop** finds out whether there is something to warn about. -/
theorem checkFlags_eq {fuel : ℕ} (hfuel : size.toNat < fuel) :
    checkFlags mem fuel size [] = some (anyTrick mem size.toNat, checkEvents size.toNat) := by
  rw [checkFlags, Loop.forRange_eq _ size.isLt hfuel]
  induction size.toNat with
  | zero => rfl
  | succ n ih =>
    rw [List.range_succ, List.foldlM_append, ih, Option.bind_eq_bind, Option.bind_some,
      anyTrick_succ, checkEvents_succ]
    rfl

/-- **The loops that print the flags never end**: an unsigned number is not negative. -/
theorem printFlags_eq_none (fuel : ℕ) (array : FlagArray) (events : List ReportEvent) :
    printFlags mem fuel size array events = none := by
  rw [printFlags, Loop.run_eq_none (P := fun _ => True) _ _ fuel trivial, Option.map_none]
  · intro s _
    exact decide_eq_true (BitVec.le_def.mpr (Nat.zero_le _))
  · exact fun _ _ _ _ => trivial

theorem dgTrickWarnClientcode_eq {fuel : ℕ} (hfuel : size.toNat < fuel)
    (h : anyTrick mem size.toNat = false) :
    dgTrickWarnClientcode mem fuel size = some (checkEvents size.toNat) := by
  rw [dgTrickWarnClientcode, checkFlags_eq mem size hfuel, h]
  rfl

theorem dgTrickWarnClientcode_eq_none {fuel : ℕ} (hfuel : size.toNat < fuel)
    (h : anyTrick mem size.toNat = true) : dgTrickWarnClientcode mem fuel size = none := by
  rw [dgTrickWarnClientcode, checkFlags_eq mem size hfuel, h]
  simp only [Option.bind_eq_bind, Option.bind_some, ↓reduceIte, printFlags_eq_none,
    Option.bind_none]

end Loops

/-- **The loops do what the model of the wrappers says**: they end in the same cases. -/
theorem dgTrickWarnClientcode_refines (mem : FlagArray → ULong → Byte) {size : ULong}
    (hsize : size.toNat ≤ 16) {fuel : ℕ} (hfuel : size.toNat < fuel) :
    (dgTrickWarnClientcode mem fuel size).map (fun _ => ())
      = warnsClientcode
        ((List.range 16).map fun i => mem .fLo (BitVec.ofNat 64 i))
        ((List.range 16).map fun i => mem .fHi (BitVec.ofNat 64 i)) size.toNat := by
  have hbytes : ∀ i < size.toNat, ∀ array,
      ((List.range 16).map fun i => mem array (BitVec.ofNat 64 i)).getD i 0
        = mem array (BitVec.ofNat 64 i) := by
    intro i hi array
    have hlt : i < 16 := by omega
    simp [hlt]
  have hany : ((List.range size.toNat).any fun i =>
      ((List.range 16).map fun i => mem .fLo (BitVec.ofNat 64 i)).getD i 0 &&&
        ((List.range 16).map fun i => mem .fHi (BitVec.ofNat 64 i)).getD i 0 ≠ 0)
      = anyTrick mem size.toNat := by
    rw [anyTrick, Bool.eq_iff_iff, List.any_eq_true, List.any_eq_true]
    refine exists_congr fun i => and_congr_right fun hi => ?_
    rw [hbytes i (List.mem_range.mp hi), hbytes i (List.mem_range.mp hi)]
    rfl
  rw [warnsClientcode, hany]
  cases h : anyTrick mem size.toNat with
  | true => rw [dgTrickWarnClientcode_eq_none mem size hfuel h]; rfl
  | false => rw [dgTrickWarnClientcode_eq mem size hfuel h]; rfl

/-! ### The report -/

/-- What is printed. -/
def isOutput : ReportEvent → Bool
  | .access _ _ => false
  | _ => true

/-- The bytes of an array, from the most to the least significant one. -/
def printedBytes (mem : FlagArray → ULong → Byte) (size : ULong) (array : FlagArray) :
    List ReportEvent :=
  (List.range size.toNat).reverse.map fun i => .printByte (mem array (BitVec.ofNat 64 i))

/-- The warning. -/
def report (mem : FlagArray → ULong → Byte) (size : ULong) : List ReportEvent :=
  [.print warning, .print "Activity bits: 0x"] ++ printedBytes mem size .fLo ++
    [.print ". Discreteness bits: 0x"] ++ printedBytes mem size .fHi ++
    [.print "\nAt\n", .backtrace, .print "\n"]

/-- **Each byte is reported once**: the function returns, reads bytes of the arrays only, and
prints the warning if and only if some byte has a flag set in both arrays. -/
def ReportsOnce (mem : FlagArray → ULong → Byte) (size : ULong) : Prop :=
  ∃ events, (∃ bound, ∀ fuel ≥ bound, dgTrickWarnClientcode mem fuel size = some events) ∧
    (∀ array i, .access array i ∈ events → i.toNat < size.toNat) ∧
    events.filter isOutput
      = if ∃ i : ULong, i.toNat < size.toNat ∧ mem .fLo i &&& mem .fHi i ≠ 0 then report mem size
        else []

theorem anyTrick_iff (mem : FlagArray → ULong → Byte) (size : ULong) :
    anyTrick mem size.toNat = true ↔
      ∃ i : ULong, i.toNat < size.toNat ∧ mem .fLo i &&& mem .fHi i ≠ 0 := by
  rw [anyTrick, List.any_eq_true]
  constructor
  · rintro ⟨i, hi, htrick⟩
    have hlt := List.mem_range.mp hi
    have hsize := size.isLt
    refine ⟨BitVec.ofNat 64 i, ?_, of_decide_eq_true htrick⟩
    rwa [BitVec.toNat_ofNat, Nat.mod_eq_of_lt (by omega)]
  · rintro ⟨i, hi, htrick⟩
    refine ⟨i.toNat, List.mem_range.mpr hi, decide_eq_true ?_⟩
    rwa [BitVec.ofNat_toNat, BitVec.setWidth_eq]

/-- **When each byte is reported once**: only if there is nothing to report. -/
theorem reportsOnce_iff (mem : FlagArray → ULong → Byte) (size : ULong) :
    ReportsOnce mem size ↔ ∀ i : ULong, i.toNat < size.toNat → mem .fLo i &&& mem .fHi i = 0 := by
  constructor
  · rintro ⟨events, ⟨bound, hevents⟩, -, -⟩ i hi
    by_contra htrick
    have hany := (anyTrick_iff mem size).mpr ⟨i, hi, htrick⟩
    have hnone := dgTrickWarnClientcode_eq_none mem size
      (Nat.lt_of_lt_of_le (Nat.lt_succ_self _) (Nat.le_add_left _ bound)) hany
    rw [hevents _ (Nat.le_add_right _ _)] at hnone
    cases hnone
  · intro h
    have hnot : ¬∃ i : ULong, i.toNat < size.toNat ∧ mem .fLo i &&& mem .fHi i ≠ 0 := by
      rintro ⟨i, hi, htrick⟩
      exact htrick (h i hi)
    have hany : anyTrick mem size.toNat = false :=
      Bool.eq_false_iff.mpr fun hany => hnot ((anyTrick_iff mem size).mp hany)
    refine ⟨checkEvents size.toNat, ⟨size.toNat + 1, fun fuel hfuel => ?_⟩, ?_, ?_⟩
    · exact dgTrickWarnClientcode_eq mem size hfuel hany
    · intro array i hmem
      obtain ⟨j, _, hj, heq⟩ := mem_checkEvents hmem
      obtain ⟨-, rfl⟩ := ReportEvent.access.inj heq
      have hsize := size.isLt
      rwa [BitVec.toNat_ofNat, Nat.mod_eq_of_lt (by omega)]
    · rw [if_neg hnot]
      refine List.filter_eq_nil_iff.mpr fun event hevent => ?_
      obtain ⟨j, _, -, rfl⟩ := mem_checkEvents hevent
      exact Bool.false_ne_true

/-- The activity and discreteness flags of the first byte are set. -/
def tricky (_ : FlagArray) (i : ULong) : Byte := if i = 0 then 1 else 0

/-- With active discrete data, the function does not return. -/
theorem not_reportsOnce_tricky : ¬ReportsOnce tricky 8 := by
  intro h
  exact absurd ((reportsOnce_iff tricky 8).mp h 0 (by decide)) (by decide)

end TrickReport

end Derivgrind
