import Mathlib.Data.List.Infix
import Mathlib.Tactic.IntervalCases
import Mathlib.Data.Nat.Digits

/-!
C strings as the handlers of `hub.c` and `nmdc_cc.c` see them: a frame is a list of
characters, one per byte. The libc and GLib routines they cut frames up with, and the number
readers and writers they use, are modelled here once.
-/

namespace Ncdc

/-! ### Cutting at a character -/

/-- `index(s, c)`: the text before the first `c` and the text after it. -/
def index (c : Char) : List Char → Option (List Char × List Char)
  | [] => none
  | x :: s => if x = c then some ([], s) else (index c s).map fun p => (x :: p.1, p.2)

/-- `rindex(s, c)`: the text before the last `c` and the text after it. -/
def rindex (c : Char) (s : List Char) : Option (List Char × List Char) :=
  (index c s.reverse).map fun p => (p.2.reverse, p.1.reverse)

theorem index_append_cons {c : Char} {a : List Char} (b : List Char) (ha : c ∉ a) :
    index c (a ++ c :: b) = some (a, b) := by
  induction a with
  | nil => simp [index]
  | cons x a ih =>
      have hx : x ≠ c := fun h => ha (h ▸ List.mem_cons_self x a)
      simp [index, hx, ih (fun h => ha (List.mem_cons_of_mem x h))]

theorem index_eq_none {c : Char} {s : List Char} (hs : c ∉ s) : index c s = none := by
  induction s with
  | nil => rfl
  | cons x s ih =>
      have hx : x ≠ c := fun h => hs (h ▸ List.mem_cons_self x s)
      simp [index, hx, ih (fun h => hs (List.mem_cons_of_mem x h))]

theorem rindex_append_cons {c : Char} (a : List Char) {b : List Char} (hb : c ∉ b) :
    rindex c (a ++ c :: b) = some (a, b) := by
  have : (a ++ c :: b).reverse = b.reverse ++ c :: a.reverse := by simp
  rw [rindex, this, index_append_cons _ (by simpa using hb)]
  simp

/-- The `cleanspace` macro of `hub.c`: skip leading spaces, then cut trailing ones. -/
def cleanspace (s : List Char) : List Char :=
  ((s.dropWhile (· == ' ')).reverse.dropWhile (· == ' ')).reverse

/-- A string that neither starts nor ends with a space, which `cleanspace` leaves alone. -/
def Trimmed (s : List Char) : Prop :=
  s.head? ≠ some ' ' ∧ s.getLast? ≠ some ' '

instance : DecidablePred Trimmed := fun s =>
  inferInstanceAs (Decidable (s.head? ≠ some ' ' ∧ s.getLast? ≠ some ' '))

theorem cleanspace_of_trimmed {s : List Char} (h : Trimmed s) : cleanspace s = s := by
  obtain ⟨hh, hl⟩ := h
  have h1 : s.dropWhile (· == ' ') = s := by
    cases s with
    | nil => rfl
    | cons x s =>
        have : (x == ' ') = false := by simpa using hh
        simp [List.dropWhile, this]
  have h2 : s.reverse.dropWhile (· == ' ') = s.reverse := by
    cases hr : s.reverse with
    | nil => rfl
    | cons x r =>
        have hx : s.getLast? = some x := by
          rw [← List.head?_reverse, hr]; rfl
        have : (x == ' ') = false := by simpa [hx] using hl
        simp [List.dropWhile, this]
  simp [cleanspace, h1, h2]

/-! ### Splitting lists and searching -/

/-- `g_strsplit(s, "$$", 0)` on a non-empty `s`: the pieces between non-overlapping
occurrences of `$$`, taken from the left. -/
def splitDollars : List Char → List (List Char)
  | '$' :: '$' :: s => [] :: splitDollars s
  | c :: s => match splitDollars s with
    | t :: ts => (c :: t) :: ts
    | [] => [[c]]
  | [] => [[]]

/-- `g_strsplit(s, "$$", 0)`; the empty string splits into no pieces at all. -/
def gStrsplit (s : List Char) : List (List Char) :=
  if s = [] then [] else splitDollars s

theorem splitOn_of_not_mem {c : Char} {a : List Char} (ha : c ∉ a) : a.splitOn c = [a] :=
  List.splitOnP_eq_single _ _ fun x hx => by simpa using ne_of_mem_of_not_mem hx ha

theorem splitOn_append_cons {c : Char} {a : List Char} (b : List Char) (ha : c ∉ a) :
    (a ++ c :: b).splitOn c = a :: b.splitOn c :=
  List.splitOnP_first _ _ (fun x hx => by simpa using ne_of_mem_of_not_mem hx ha) _ (by simp) _

/-- `strstr(s, t) != NULL`. -/
def strstr (s t : List Char) : Bool := decide (t <:+: s)

/-! ### Reading numbers -/

/-- The C locale's `isspace`. -/
def isSpace (c : Char) : Bool :=
  c == ' ' || c == '\t' || c == '\n' || c == '\x0B' || c == '\x0C' || c == '\r'

/-- The value of a decimal digit character. -/
def digitVal (c : Char) : Nat := c.toNat - '0'.toNat

/-- The value of a run of decimal digits, most significant first. -/
def digitsValue (ds : List Char) : Nat := ds.foldl (fun n c => 10 * n + digitVal c) 0

/-- An optional sign followed by the maximal run of digits: whether the sign was a minus,
the digits, and what follows them. -/
def signDigits (s : List Char) : Bool × List Char × List Char :=
  match s with
  | '-' :: r => (true, r.takeWhile Char.isDigit, r.dropWhile Char.isDigit)
  | '+' :: r => (false, r.takeWhile Char.isDigit, r.dropWhile Char.isDigit)
  | r => (false, r.takeWhile Char.isDigit, r.dropWhile Char.isDigit)

/-- `strtoull`'s value for a sign and digits: `ULLONG_MAX` on overflow, and a minus sign
negates modulo `2 ^ 64`. -/
def strtoullValue (neg : Bool) (ds : List Char) : Nat :=
  if 2 ^ 64 ≤ digitsValue ds then 2 ^ 64 - 1
  else if neg then (2 ^ 64 - digitsValue ds) % 2 ^ 64 else digitsValue ds

/-- `g_ascii_strtoull(s, NULL, 10)`. -/
def gAsciiStrtoull (s : List Char) : Nat :=
  match signDigits (s.dropWhile isSpace) with
  | (neg, ds, _) => strtoullValue neg ds

/-- `strtol(s, NULL, 10)` with a 64-bit `long`, saturating at `LONG_MIN` and `LONG_MAX`. -/
def strtol (s : List Char) : Int :=
  match signDigits (s.dropWhile isSpace) with
  | (true, ds, _) => max (-(digitsValue ds : Int)) (-2 ^ 63)
  | (false, ds, _) => min (digitsValue ds : Int) (2 ^ 63 - 1)

theorem gAsciiStrtoull_lt (s : List Char) : gAsciiStrtoull s < 2 ^ 64 := by
  unfold gAsciiStrtoull strtoullValue; split; split_ifs <;> omega

theorem strtol_range (s : List Char) : -2 ^ 63 ≤ strtol s ∧ strtol s < 2 ^ 63 := by
  unfold strtol; split <;> omega

/-- The value an `unsigned char` takes when a `long` is assigned to it. -/
def toUChar (v : Int) : Nat := (v % 256).toNat

/-- A directive of the `sscanf` formats in `hub.c`: a literal character, or an unsigned
conversion stored into a type of `2 ^ bits` values (`%hhu` is 8 bits, `%u` is 32). -/
inductive ScanDir
  | lit (c : Char)
  | unsigned (bits : Nat)

/-- `sscanf(s, fmt, ...)`: the value it returns (the number of items assigned, or `EOF`,
that is `-1`, when the input ends before any item was assigned) and the values assigned,
in order. -/
def sscanf : List ScanDir → List Char → List Nat → Int × List Nat
  | [], _, acc => (acc.length, acc)
  | .lit c :: fmt, s, acc =>
      match s with
      | [] => (if acc = [] then -1 else acc.length, acc)
      | x :: s => if x = c then sscanf fmt s acc else (acc.length, acc)
  | .unsigned bits :: fmt, s, acc =>
      match s.dropWhile isSpace with
      | [] => (if acc = [] then -1 else acc.length, acc)
      | x :: s =>
          match signDigits (x :: s) with
          | (neg, ds, rest) =>
              if ds = [] then (acc.length, acc)
              else sscanf fmt rest (acc ++ [strtoullValue neg ds % 2 ^ bits])

@[simp] theorem sscanf_nil (s : List Char) (acc : List Nat) :
    sscanf [] s acc = ((acc.length : Int), acc) := by
  cases s <;> rfl

@[simp] theorem sscanf_lit_cons (c : Char) (fmt : List ScanDir) (s : List Char)
    (acc : List Nat) : sscanf (.lit c :: fmt) (c :: s) acc = sscanf fmt s acc := by
  simp [sscanf]

theorem sscanf_lit_ne {c x : Char} (h : x ≠ c) (fmt : List ScanDir) (s : List Char)
    (acc : List Nat) : sscanf (.lit c :: fmt) (x :: s) acc = ((acc.length : Int), acc) := by
  simp [sscanf, h]

/-! ### Writing numbers -/

/-- What `printf` writes for `%d`, `%u` or `%llu` of a non-negative value. -/
def decimal (n : Nat) : List Char := Nat.toDigits 10 n

theorem digitVal_digitChar {d : Nat} (h : d < 10) : digitVal (Nat.digitChar d) = d := by
  interval_cases d <;> rfl

theorem isDigit_digitChar {d : Nat} (h : d < 10) : (Nat.digitChar d).isDigit = true := by
  interval_cases d <;> rfl

theorem toDigitsCore_append (fuel n : Nat) (ds : List Char) :
    Nat.toDigitsCore 10 fuel n ds = Nat.toDigitsCore 10 fuel n [] ++ ds := by
  induction fuel generalizing n ds with
  | zero => rfl
  | succ fuel ih =>
      simp only [Nat.toDigitsCore]
      split
      · rfl
      · rw [ih _ (_ :: ds), ih _ [_]]; simp

theorem toDigitsCore_spec (fuel n : Nat) (h : n < fuel) :
    digitsValue (Nat.toDigitsCore 10 fuel n []) = n ∧
      ∀ c ∈ Nat.toDigitsCore 10 fuel n [], c.isDigit = true := by
  induction fuel generalizing n with
  | zero => omega
  | succ fuel ih =>
      have hd := digitVal_digitChar (Nat.mod_lt n (by decide : 10 > 0))
      have hdig := isDigit_digitChar (Nat.mod_lt n (by decide : 10 > 0))
      simp only [Nat.toDigitsCore]
      split
      · refine ⟨?_, by simpa using hdig⟩
        simp only [digitsValue, List.foldl, hd]; omega
      · rename_i hn
        rw [toDigitsCore_append]
        obtain ⟨ih1, ih2⟩ := ih (n / 10) (by omega)
        refine ⟨?_, ?_⟩
        · simp only [digitsValue, List.foldl_append, List.foldl] at ih1 ⊢
          rw [ih1, hd]; omega
        · simp only [List.mem_append, List.mem_singleton]
          rintro c (hc | rfl)
          exacts [ih2 c hc, hdig]

theorem digitsValue_decimal (n : Nat) : digitsValue (decimal n) = n :=
  (toDigitsCore_spec (n + 1) n (by omega)).1

theorem isDigit_of_mem_decimal {n : Nat} {c : Char} (h : c ∈ decimal n) : c.isDigit = true :=
  (toDigitsCore_spec (n + 1) n (by omega)).2 c h

theorem not_mem_decimal {c : Char} (hc : c.isDigit = false) (n : Nat) : c ∉ decimal n :=
  fun h => by simp [isDigit_of_mem_decimal h] at hc

theorem decimal_ne_nil (n : Nat) : decimal n ≠ [] := by
  show Nat.toDigitsCore 10 (n + 1) n [] ≠ []
  simp only [Nat.toDigitsCore]
  split
  · simp
  · rw [toDigitsCore_append]; simp

theorem isSpace_eq_false_of_isDigit {c : Char} (h : c.isDigit = true) : isSpace c = false := by
  have h' : '0' ≤ c ∧ c ≤ '9' := by simpa [Char.isDigit] using h
  simp only [isSpace, Bool.or_eq_false_iff, beq_eq_false_iff_ne, ne_eq]
  refine ⟨⟨⟨⟨⟨?_, ?_⟩, ?_⟩, ?_⟩, ?_⟩, ?_⟩ <;> rintro rfl <;> revert h' <;> decide

theorem signDigits_decimal (n : Nat) {rest : List Char}
    (hr : ∀ c ∈ rest.head?, c.isDigit = false) :
    signDigits (decimal n ++ rest) = (false, decimal n, rest) := by
  have hall : ∀ c ∈ decimal n, c.isDigit = true := fun c h => isDigit_of_mem_decimal h
  have htake : (decimal n ++ rest).takeWhile Char.isDigit = decimal n := by
    rw [List.takeWhile_append_of_pos hall]
    cases rest with
    | nil => simp
    | cons x r => simp [List.takeWhile, hr x rfl]
  have hdrop : (decimal n ++ rest).dropWhile Char.isDigit = rest := by
    rw [List.dropWhile_append_of_pos hall]
    cases rest with
    | nil => rfl
    | cons x r => simp [List.dropWhile, hr x rfl]
  have hhead : ∀ r, decimal n ++ rest ≠ '-' :: r ∧ decimal n ++ rest ≠ '+' :: r := by
    intro r
    obtain ⟨d, ds, hd⟩ := List.exists_cons_of_ne_nil (decimal_ne_nil n)
    have := isDigit_of_mem_decimal (hd ▸ List.mem_cons_self d ds)
    constructor <;> rintro h <;> rw [hd] at h <;> cases h <;> simp_all
  unfold signDigits
  split
  · exact absurd ‹_› (hhead _).1
  · exact absurd ‹_› (hhead _).2
  · rw [htake, hdrop]

theorem dropWhile_isSpace_decimal (n : Nat) (rest : List Char) :
    (decimal n ++ rest).dropWhile isSpace = decimal n ++ rest := by
  obtain ⟨d, ds, hd⟩ := List.exists_cons_of_ne_nil (decimal_ne_nil n)
  have := isDigit_of_mem_decimal (hd ▸ List.mem_cons_self d ds)
  rw [hd]
  simp [List.dropWhile, isSpace_eq_false_of_isDigit this]

theorem gAsciiStrtoull_decimal {n : Nat} (hn : n < 2 ^ 64) {rest : List Char}
    (hr : ∀ c ∈ rest.head?, c.isDigit = false) :
    gAsciiStrtoull (decimal n ++ rest) = n := by
  have hn' : ¬(18446744073709551616 ≤ n) := by omega
  simp [gAsciiStrtoull, dropWhile_isSpace_decimal, signDigits_decimal n hr, strtoullValue,
    digitsValue_decimal, hn']

theorem signDigits_digits {s : List Char} (h : ∀ c ∈ s, c.isDigit = true) :
    signDigits s = (false, s, []) := by
  unfold signDigits
  split
  · exact absurd (h _ (List.mem_cons_self _ _)) (by decide)
  · exact absurd (h _ (List.mem_cons_self _ _)) (by decide)
  · rw [List.takeWhile_eq_self_iff.2 h, List.dropWhile_eq_nil_iff.2 h]

/-- `g_ascii_strtoull` of a run of decimal digits of any length: their value, saturated at
`G_MAXUINT64`. -/
theorem gAsciiStrtoull_digits {s : List Char} (h : s.all Char.isDigit = true) :
    gAsciiStrtoull s = min (digitsValue s) (2 ^ 64 - 1) := by
  have hd : ∀ c ∈ s, c.isDigit = true := List.all_eq_true.1 h
  have hsp : s.dropWhile isSpace = s := by
    cases s with
    | nil => rfl
    | cons c cs =>
        simp [List.dropWhile, isSpace_eq_false_of_isDigit (hd c (List.mem_cons_self c cs))]
  simp only [gAsciiStrtoull, hsp, signDigits_digits hd, strtoullValue, Bool.false_eq_true,
    if_false]
  split_ifs <;> omega

theorem sscanf_unsigned_decimal (bits : Nat) (fmt : List ScanDir) {n : Nat} (hn : n < 2 ^ 64)
    {rest : List Char} (hr : ∀ c ∈ rest.head?, c.isDigit = false) (acc : List Nat) :
    sscanf (.unsigned bits :: fmt) (decimal n ++ rest) acc =
      sscanf fmt rest (acc ++ [n % 2 ^ bits]) := by
  have hn' : ¬(18446744073709551616 ≤ n) := by omega
  obtain ⟨d, ds, hd⟩ := List.exists_cons_of_ne_nil (decimal_ne_nil n)
  have hs := signDigits_decimal n hr
  have hv : strtoullValue false (decimal n) = n := by
    simp [strtoullValue, digitsValue_decimal, hn']
  have hsp := dropWhile_isSpace_decimal n rest
  rw [hd, List.cons_append] at hs hsp
  rw [hd] at hv
  simp only [sscanf, hd, List.cons_append, hsp, hs, hv]
  simp

theorem sscanf_unsigned_decimal_end (bits : Nat) (fmt : List ScanDir) {n : Nat}
    (hn : n < 2 ^ 64) (acc : List Nat) :
    sscanf (.unsigned bits :: fmt) (decimal n) acc = sscanf fmt [] (acc ++ [n % 2 ^ bits]) := by
  simpa using @sscanf_unsigned_decimal bits fmt n hn [] (by simp) acc

/-! ### Joining path elements -/

/-- The state of the loop of GLib's `g_build_path_va`. -/
structure BuildPath where
  result : List Char
  isFirst : Bool
  haveLeading : Bool
  singleElement : Option (List Char)
  lastTrailing : Option (List Char)

/-- One element of `g_build_path_va` with the separator `/`: an empty one is skipped, any other adds
its text between its leading and trailing separators, after a `/` when something came before. The
first keeps its leading separators (all of it if it is only separators), the last its trailing ones.
-/
def buildPathStep (st : BuildPath) (element : List Char) : BuildPath :=
  if element.isEmpty then st
  else
    let lead := element.takeWhile (· == '/')
    let core := ((element.drop lead.length).reverse.dropWhile (· == '/')).reverse
    let st := { st with lastTrailing := some (element.reverse.takeWhile (· == '/')).reverse }
    let st := if st.haveLeading then { st with singleElement := none }
      else { st with singleElement := if core.isEmpty then some element else st.singleElement,
                     result := st.result ++ lead, haveLeading := true }
    if core.isEmpty then st
    else { st with result := st.result ++ (if st.isFirst then [] else ['/']) ++ core,
                   isFirst := false }

/-- `g_build_filename(elements..., NULL)` on a system whose only separator is `/`. -/
def gBuildFilename (elements : List (List Char)) : List Char :=
  let st := elements.foldl buildPathStep ⟨[], true, false, none, none⟩
  match st.singleElement with
  | some e => e
  | none => st.result ++ st.lastTrailing.getD []

end Ncdc
