import Ncdc.CString

/-!
The command regexes of `hub.c` and `nmdc_cc.c`, compiled anchored and raw. After each greedy
class a pattern goes on with a character the class excludes, so PCRE's first match is the
greedy left-to-right reading written below.
-/

namespace Ncdc

/-- A literal at the front of the text: what follows it. -/
def literal (p s : List Char) : Option (List Char) :=
  if p.isPrefixOf s then some (s.drop p.length) else none

/-- The maximal non-empty run of characters satisfying `ok`, and what follows it. -/
def run (ok : Char → Bool) (s : List Char) : Option (List Char × List Char) :=
  if s.takeWhile ok = [] then none else some (s.takeWhile ok, s.dropWhile ok)

/-- The class `[^ $]`. -/
def wordChar (c : Char) : Bool := c != ' ' && c != '$'

/-- `([^ $]+)` -/
def word : List Char → Option (List Char × List Char) := run wordChar

/-- `([^ ]+)` -/
def field : List Char → Option (List Char × List Char) := run (· != ' ')

/-- `([0-9]+)` -/
def digitsRun : List Char → Option (List Char × List Char) := run Char.isDigit

/-- `(.+)` at the end of a pattern: the rest of the frame, which must not be empty. -/
def rest (s : List Char) : Option (List Char) := if s = [] then none else some s

/-- A single character from a class. -/
def oneOf (ok : Char → Bool) : List Char → Option (Char × List Char)
  | c :: s => if ok c then some (c, s) else none
  | [] => none

/-- `[0-9]{1,3}`: up to three digits, at least one. -/
def octet (s : List Char) : Option (List Char × List Char) :=
  let d := (s.takeWhile Char.isDigit).take 3
  if d = [] then none else some (d, s.drop d.length)

/-- `[0-9]{1,3}(?:\.[0-9]{1,3}){3}:[0-9]+`: the matched address and what follows it. -/
def ipPort (s : List Char) : Option (List Char × List Char) := do
  let (a, s) ← octet s
  let s ← literal ['.'] s
  let (b, s) ← octet s
  let s ← literal ['.'] s
  let (c, s) ← octet s
  let s ← literal ['.'] s
  let (d, s) ← octet s
  let s ← literal [':'] s
  let (port, s) ← digitsRun s
  pure (a ++ '.' :: b ++ '.' :: c ++ '.' :: d ++ ':' :: port, s)

@[simp] theorem literal_append (p s : List Char) : literal p (p ++ s) = some s := by
  simp [literal, List.isPrefixOf_iff_prefix]

theorem run_append {ok : Char → Bool} {a : List Char} (c : Char) (b : List Char)
    (ha : a ≠ []) (hall : ∀ x ∈ a, ok x) (hc : ok c = false) :
    run ok (a ++ c :: b) = some (a, c :: b) := by
  have ht : (a ++ c :: b).takeWhile ok = a := by
    rw [List.takeWhile_append_of_pos hall]; simp [List.takeWhile, hc]
  have hd : (a ++ c :: b).dropWhile ok = c :: b := by
    rw [List.dropWhile_append_of_pos hall]; simp [List.dropWhile, hc]
  simp [run, ht, hd, ha]

theorem eq_append_of_literal_bind {α : Type} {p s : List Char} {k : List Char → Option α}
    (h : (literal p s >>= k).isSome) : ∃ t, s = p ++ t := by
  unfold literal at h; split_ifs at h with hp
  · obtain ⟨t, ht⟩ := List.isPrefixOf_iff_prefix.1 hp; exact ⟨t, ht.symm⟩
  · simp at h

/-- `\$Lock ([^ $]+) Pk=[^ $]+`, in both files. -/
def matchLock (s : List Char) : Option (List Char) := do
  let s ← literal "$Lock ".toList s
  let (lock, s) ← word s
  let s ← literal " Pk=".toList s
  let _ ← word s
  pure lock

/-- `\$Supports (.+)`, in both files. -/
def matchSupports (s : List Char) : Option (List Char) :=
  literal "$Supports ".toList s >>= rest

end Ncdc
