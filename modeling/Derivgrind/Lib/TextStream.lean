import Mathlib.Data.List.TakeWhile
import Mathlib.Tactic.Set

/-!
# Reading numbers from a text stream

A formatted input operation reads a number in three stages: it skips white space, it
accumulates characters as long as they can continue a number, and it converts the field
that it has accumulated.  The state of the stream tells whether the end of the text was
reached in one of the first two stages, and whether no number was obtained.  A stream that
is not in a good state is not read from any more.

## Main definitions

* `NumGet` — how numbers of a type are read.
* `TextStream.extract` — read a number.
* `NumGet.Reads` — read one number after the other, until the end of the text is reached.
* `NumGet.IsList` — a text consists of numbers that are separated by white space.

## Main results

* `NumGet.IsList.reads` — **reading a list of numbers**: a last number that reaches the end of
  the text is not among the results.
-/

/-- White space, in the default locale. -/
def TextStream.isSpace (c : Char) : Bool :=
  c == ' ' || c == '\n' || c == '\t' || c == '\x0c' || c == '\x0b' || c == '\r'

open TextStream (isSpace)

/-- How numbers of a type are read. -/
structure NumGet (T : Type*) where
  /-- Whether a character can continue the field that was accumulated so far. -/
  accepts : List Char → Char → Bool
  /-- The value of a field, and whether the conversion failed. -/
  convert : List Char → T × Bool
  accepts_space : ∀ field c, isSpace c = true → accepts field c = false
  convert_nil : (convert []).2 = true

/-- A text stream: the characters to be read, and two bits of its state. -/
structure TextStream where
  text : List Char
  eof : Bool
  fail : Bool

namespace NumGet

variable {T : Type*} (F : NumGet T)

/-- Accumulate characters: the field, and what is behind it. -/
def scan (field : List Char) : List Char → List Char × List Char
  | [] => (field, [])
  | c :: s => if F.accepts field c then scan (field ++ [c]) s else (field, c :: s)

/-- The first field of a text, behind white space. -/
def firstField (text : List Char) : List Char × List Char := F.scan [] (text.dropWhile isSpace)

/-- A number that is read as a whole. -/
structure IsNumber (w : List Char) (v : T) : Prop where
  scan_eq : F.scan [] w = (w, [])
  convert_eq : F.convert w = (v, false)

/-- **The numbers of a text**: each field that does not reach its end is a number. -/
inductive Reads : List Char → List T → Prop
  | stop {text : List Char} (hend : (F.firstField text).2 = []) : Reads text []
  | number {text : List Char} {v : T} {vs : List T} (hend : (F.firstField text).2 ≠ [])
      (hv : F.convert (F.firstField text).1 = (v, false))
      (hvs : Reads (F.firstField text).2 vs) : Reads text (v :: vs)

/-- **A text consists of numbers** that are separated by white space. -/
inductive IsList : List Char → List T → Prop
  | blank {space : List Char} (hspace : ∀ c ∈ space, isSpace c = true) : IsList space []
  | number {space w text : List Char} {v : T} {vs : List T}
      (hspace : ∀ c ∈ space, isSpace c = true) (hw : F.IsNumber w v)
      (htext : ∀ c ∈ text.head?, isSpace c = true) (hvs : IsList text vs) :
      IsList (space ++ (w ++ text)) (v :: vs)

end NumGet

namespace TextStream

variable {T : Type*} (F : NumGet T)

/-- `file >> data`: the value of `data` after the operation, and the stream. -/
def extract (file : TextStream) (data : T) : T × TextStream :=
  if file.eof || file.fail then (data, { file with fail := true })
  else match file.text.dropWhile isSpace with
    | [] => (data, ⟨[], true, true⟩)
    | c :: s =>
        let r := F.scan [] (c :: s)
        ((F.convert r.1).1, ⟨r.2, r.2.isEmpty, (F.convert r.1).2⟩)

/-- A text is empty, or ends in white space. -/
def EndsInSpace (text : List Char) : Prop := ∀ c ∈ text.getLast?, isSpace c = true

instance (text : List Char) : Decidable (EndsInSpace text) :=
  decidable_of_iff (text.getLast?.all isSpace = true) (by simp [EndsInSpace, Option.all_eq_true])

theorem endsInSpace_append (s : List Char) {t : List Char} (ht : t ≠ []) :
    EndsInSpace (s ++ t) ↔ EndsInSpace t := by
  rw [EndsInSpace, EndsInSpace, List.getLast?_append, List.getLast?_eq_some_getLast ht,
    Option.some_or]

/-! ### The state of the stream -/

section Extract

variable {text : List Char} (data : T)

theorem extract_of_end (hend : (F.firstField text).2 = []) :
    (extract F ⟨text, false, false⟩ data).2.eof = true := by
  simp only [extract, Bool.or_self, Bool.false_eq_true, ↓reduceIte]
  rw [NumGet.firstField] at hend
  cases hskip : text.dropWhile isSpace with
  | nil => rfl
  | cons c s =>
    rw [hskip] at hend
    simp only [hend, List.isEmpty_nil]

theorem extract_of_not_end (hend : (F.firstField text).2 ≠ []) :
    extract F ⟨text, false, false⟩ data
      = ((F.convert (F.firstField text).1).1,
        ⟨(F.firstField text).2, false, (F.convert (F.firstField text).1).2⟩) := by
  simp only [extract, Bool.or_self, Bool.false_eq_true, ↓reduceIte]
  rw [NumGet.firstField] at hend ⊢
  cases hskip : text.dropWhile isSpace with
  | nil => rw [hskip] at hend; exact absurd rfl hend
  | cons c s =>
    rw [hskip] at hend
    simp only [List.isEmpty_eq_false_iff.mpr hend]

/-- After a failure, the stream is not read from any more. -/
theorem extract_of_fail {file : TextStream} (hfail : file.fail = true) :
    extract F file data = (data, file) := by
  obtain ⟨text, eof, fail⟩ := file
  rw [extract, if_pos (by rw [hfail, Bool.or_true])]
  cases hfail
  rfl

end Extract

end TextStream

namespace NumGet

open TextStream

variable {T : Type*} (F : NumGet T)

/-! ### Fields -/

theorem scan_append (field s : List Char) : (F.scan field s).1 ++ (F.scan field s).2 = field ++ s := by
  induction s generalizing field with
  | nil => rfl
  | cons c s ih =>
    rw [scan]
    split
    · rw [ih, List.append_assoc, List.singleton_append]
    · rfl

/-- White space ends a field. -/
theorem scan_append_space {text : List Char} (htext : ∀ c ∈ text.head?, isSpace c = true)
    (field w : List Char) {field' : List Char} (hw : F.scan field w = (field', [])) :
    F.scan field (w ++ text) = (field', text) := by
  induction w generalizing field with
  | nil =>
    obtain ⟨rfl, -⟩ := Prod.mk.inj hw
    cases text with
    | nil => rfl
    | cons c text =>
      have hc : F.accepts field c = false := F.accepts_space _ _ (htext c rfl)
      rw [List.nil_append, scan, if_neg (by simp [hc])]
  | cons c w ih =>
    rw [List.cons_append, scan]
    rw [scan] at hw
    split
    · next hc => exact ih _ (by rwa [if_pos hc] at hw)
    · next hc => rw [if_neg hc] at hw; cases (Prod.mk.inj hw).2

/-- A field has no white space. -/
theorem isSpace_scan (field s : List Char) {c : Char} (hc : c ∈ (F.scan field s).1) :
    c ∈ field ∨ isSpace c = false := by
  induction s generalizing field with
  | nil => exact .inl hc
  | cons d s ih =>
    rw [scan] at hc
    split at hc
    · next hd =>
      rcases ih _ hc with hmem | hspace
      · rcases List.mem_append.mp hmem with hmem | hmem
        · exact .inl hmem
        · rw [List.mem_singleton.mp hmem]
          refine .inr (Bool.eq_false_iff.mpr fun hspace => ?_)
          rw [F.accepts_space _ _ hspace] at hd
          cases hd
      · exact .inr hspace
    · exact .inl hc

theorem length_firstField (text : List Char) :
    (F.firstField text).1.length + (F.firstField text).2.length ≤ text.length := by
  rw [← List.length_append, firstField, scan_append, List.nil_append]
  exact (List.dropWhile_suffix _).length_le

/-- **A number takes up characters.** -/
theorem length_lt_of_convert {text : List Char} {v : T}
    (hv : F.convert (F.firstField text).1 = (v, false)) :
    (F.firstField text).2.length < text.length := by
  have hle := F.length_firstField text
  have hne : (F.firstField text).1 ≠ [] := by
    intro hnil
    have hfail := F.convert_nil
    rw [← hnil, hv] at hfail
    cases hfail
  have hpos := List.length_pos_iff.mpr hne
  omega

variable {F}

theorem Reads.unique {text : List Char} {vs vs' : List T} (h : F.Reads text vs)
    (h' : F.Reads text vs') : vs = vs' := by
  induction h generalizing vs' with
  | stop hend =>
    cases h' with
    | stop _ => rfl
    | number hend' _ _ => exact absurd hend hend'
  | number hend hv _ ih =>
    cases h' with
    | stop hend' => exact absurd hend' hend
    | number _ hv' hvs' =>
      rw [hv] at hv'
      rw [(Prod.mk.inj hv').1, ih hvs']

theorem IsNumber.ne_nil {w : List Char} {v : T} (h : F.IsNumber w v) : w ≠ [] := by
  rintro rfl
  have hfail := F.convert_nil
  rw [h.convert_eq] at hfail
  cases hfail

theorem IsNumber.not_isSpace {w : List Char} {v : T} (h : F.IsNumber w v) {c : Char}
    (hc : c ∈ w) : isSpace c = false := by
  have hscan : c ∈ (F.scan [] w).1 := by rwa [h.scan_eq]
  exact (F.isSpace_scan [] w hscan).resolve_left List.not_mem_nil

/-- The first field of a list of numbers is its first number. -/
theorem IsNumber.firstField {space w text : List Char} {v : T}
    (hspace : ∀ c ∈ space, isSpace c = true) (hw : F.IsNumber w v)
    (htext : ∀ c ∈ text.head?, isSpace c = true) :
    F.firstField (space ++ (w ++ text)) = (w, text) := by
  obtain ⟨c, w', rfl⟩ := List.exists_cons_of_ne_nil hw.ne_nil
  have hc : isSpace c = false := hw.not_isSpace List.mem_cons_self
  have hskip : (space ++ (c :: w' ++ text)).dropWhile isSpace = c :: w' ++ text := by
    rw [List.dropWhile_append_of_pos hspace, List.cons_append, List.dropWhile_cons, hc]
    rfl
  rw [NumGet.firstField, hskip]
  exact F.scan_append_space htext [] _ hw.scan_eq

/-! ### Lists of numbers -/

/-- White space in front of a list of numbers. -/
theorem IsList.space_append {space text : List Char} (hspace : ∀ c ∈ space, isSpace c = true)
    {vs : List T} (h : F.IsList text vs) : F.IsList (space ++ text) vs := by
  cases h with
  | blank hblank =>
    exact .blank fun c hc => (List.mem_append.mp hc).elim (hspace c) (hblank c)
  | number hspace' hw htext hvs =>
    rw [← List.append_assoc]
    exact .number (fun c hc => (List.mem_append.mp hc).elim (hspace c) (hspace' c)) hw htext hvs

/-- There are no numbers in the empty text. -/
theorem IsList.eq_nil {vs : List T} (h : F.IsList [] vs) : vs = [] := by
  generalize htext : ([] : List Char) = text at h
  cases h with
  | blank _ => rfl
  | number _ hw _ _ =>
    have hnil := (List.append_eq_nil_iff.mp htext.symm).2
    exact absurd (List.append_eq_nil_iff.mp hnil).1 hw.ne_nil

/-- A text without numbers is white space. -/
theorem IsList.endsInSpace_of_nil {text : List Char} (h : F.IsList text []) :
    EndsInSpace text := by
  cases h with
  | blank hblank => exact fun c hc => hblank c (List.mem_of_getLast? hc)

/-- **Reading a list of numbers**: a last number that reaches the end of the text is not among
the results. -/
theorem IsList.reads {text : List Char} {vs : List T} (h : F.IsList text vs) :
    F.Reads text (if EndsInSpace text then vs else vs.dropLast) := by
  induction h with
  | @blank space hspace =>
    have hskip : F.firstField space = ([], []) := by
      rw [NumGet.firstField, List.dropWhile_eq_nil_iff.mpr hspace]
      rfl
    rw [List.dropLast_nil, ite_self]
    exact .stop (congrArg Prod.snd hskip)
  | @number space w text v vs hspace hw htext hvs ih =>
    have hfield := hw.firstField hspace htext
    by_cases htail : text = []
    · -- the number reaches the end
      subst htail
      have hlast : ¬EndsInSpace (space ++ (w ++ [])) := by
        rw [List.append_nil, endsInSpace_append space hw.ne_nil]
        intro hend
        have hmem := List.getLast_mem hw.ne_nil
        have hspace := hend _ (List.getLast?_eq_some_getLast hw.ne_nil)
        rw [hw.not_isSpace hmem] at hspace
        cases hspace
      rw [if_neg hlast, hvs.eq_nil, List.dropLast_singleton]
      exact .stop (congrArg Prod.snd hfield)
    · have hne : w ++ text ≠ [] := List.append_ne_nil_of_right_ne_nil w htail
      have hends : EndsInSpace (space ++ (w ++ text)) ↔ EndsInSpace text :=
        (endsInSpace_append space hne).trans (endsInSpace_append w htail)
      have hlist : (if EndsInSpace (space ++ (w ++ text)) then v :: vs else (v :: vs).dropLast)
          = v :: if EndsInSpace text then vs else vs.dropLast := by
        by_cases hend : EndsInSpace text
        · rw [if_pos hend, if_pos (hends.mpr hend)]
        · have hvs' : vs ≠ [] := by
            rintro rfl
            exact hend hvs.endsInSpace_of_nil
          rw [if_neg hend, if_neg (fun h => hend (hends.mp h)),
            List.dropLast_cons_of_ne_nil hvs']
      rw [hlist]
      refine .number ?_ ?_ ?_
      · rwa [hfield]
      · rw [hfield, hw.convert_eq]
      · rwa [hfield]

end NumGet
