import Mathlib.Data.List.Basic
import Mathlib.Data.Char
import Ncdc.Base32

/-!
The file-list tree: its records (`struct fl_list`) on a heap of pointers and the operations
that rearrange them. Loops over pointers take the allocation counter as fuel, and a read
through a pointer that holds no record returns `none`.
-/

namespace Ncdc

/-- `struct fl_list` without `lastmod`, which the file-list code never reads. The root's `name` is
`NULL`, a file has no `sub`, and `tth` is the 24-byte `char tth[24]`. -/
structure FlNode where
  name : Option (List Char)
  parent : Option Nat
  sub : Option (List Nat)
  size : Nat
  tth : Tth
  hastth : Int
  isfile : Bool
  incomplete : Bool
  deriving DecidableEq, Repr

/-- A zeroed record from `g_slice_new0(struct fl_list)`. -/
def FlNode.zero : FlNode :=
  ⟨none, none, none, 0, Tth.zero, 0, false, false⟩

/-- The file-list records by pointer, and the next pointer `g_slice_new` hands out. -/
structure FlHeap where
  nodes : Nat → Option FlNode
  next : Nat

/-- A store through a pointer. -/
def FlHeap.set (H : FlHeap) (p : Nat) (n : FlNode) : FlHeap :=
  { H with nodes := Function.update H.nodes p (some n) }

/-- `g_slice_new`: a record at a fresh pointer. -/
def FlHeap.alloc (H : FlHeap) (n : FlNode) : FlHeap × Nat :=
  ({ nodes := Function.update H.nodes H.next (some n), next := H.next + 1 }, H.next)

@[simp] theorem FlHeap.set_nodes_self (H : FlHeap) (p : Nat) (n : FlNode) :
    (H.set p n).nodes p = some n := by simp [FlHeap.set]

@[simp] theorem FlHeap.set_nodes_ne (H : FlHeap) {p q : Nat} (n : FlNode) (h : q ≠ p) :
    (H.set p n).nodes q = H.nodes q := by simp [FlHeap.set, h]

@[simp] theorem FlHeap.set_next (H : FlHeap) (p : Nat) (n : FlNode) :
    (H.set p n).next = H.next := rfl

@[simp] theorem FlHeap.alloc_snd (H : FlHeap) (n : FlNode) : (H.alloc n).2 = H.next := rfl

@[simp] theorem FlHeap.alloc_next (H : FlHeap) (n : FlNode) : (H.alloc n).1.next = H.next + 1 :=
  rfl

@[simp] theorem FlHeap.alloc_nodes_self (H : FlHeap) (n : FlNode) :
    (H.alloc n).1.nodes H.next = some n := by simp [FlHeap.alloc]

theorem FlHeap.alloc_nodes_ne (H : FlHeap) (n : FlNode) {x : Nat} (h : x ≠ H.next) :
    (H.alloc n).1.nodes x = H.nodes x := by simp [FlHeap.alloc, h]

/-! ### Names -/

/-- `strcmp` on two names. The names are UTF-8, whose byte order is the order of the code
points, so comparing characters compares the bytes. -/
def strcmp : List Char → List Char → Ordering
  | [], [] => .eq
  | [], _ :: _ => .lt
  | _ :: _, [] => .gt
  | a :: as, b :: bs => if a < b then .lt else if b < a then .gt else strcmp as bs

theorem strcmp_cons_cons (a b : Char) (as bs : List Char) :
    strcmp (a :: as) (b :: bs) = if a < b then .lt else if b < a then .gt else strcmp as bs := rfl

theorem strcmp_swap : ∀ a b : List Char, strcmp b a = (strcmp a b).swap
  | [], [] => rfl
  | [], _ :: _ => rfl
  | _ :: _, [] => rfl
  | x :: xs, y :: ys => by
      rw [strcmp_cons_cons, strcmp_cons_cons]
      rcases lt_trichotomy x y with h | rfl | h
      · simp [h, not_lt_of_lt h]; rfl
      · simp [strcmp_swap xs ys]
      · simp [h, not_lt_of_lt h]; rfl

theorem strcmp_eq_iff : ∀ {a b : List Char}, strcmp a b = .eq ↔ a = b
  | [], [] => by simp [strcmp]
  | [], _ :: _ => by simp [strcmp]
  | _ :: _, [] => by simp [strcmp]
  | x :: xs, y :: ys => by
      rw [strcmp_cons_cons]
      rcases lt_trichotomy x y with h | rfl | h
      · simp [h, ne_of_lt h]
      · simp [strcmp_eq_iff]
      · simp [h, not_lt_of_lt h, ne_of_gt h]

@[simp] theorem strcmp_self (a : List Char) : strcmp a a = .eq := strcmp_eq_iff.2 rfl

theorem strcmp_lt_cons_iff {x y : Char} {xs ys : List Char} :
    strcmp (x :: xs) (y :: ys) = .lt ↔ x < y ∨ x = y ∧ strcmp xs ys = .lt := by
  rw [strcmp_cons_cons]
  rcases lt_trichotomy x y with h | rfl | h
  · simp [h]
  · simp
  · simp [h, not_lt_of_lt h, ne_of_gt h]

theorem strcmp_lt_trans : ∀ {a b c : List Char}, strcmp a b = .lt → strcmp b c = .lt →
    strcmp a c = .lt
  | [], _ :: _, _ :: _, _, _ => rfl
  | a, [], _, h, _ => by cases a <;> simp [strcmp] at h
  | _, b, [], _, h => by cases b <;> simp [strcmp] at h
  | x :: xs, y :: ys, z :: zs, h1, h2 => by
      rw [strcmp_lt_cons_iff] at *
      rcases h1 with h1 | ⟨rfl, h1⟩ <;> rcases h2 with h2 | ⟨rfl, h2⟩
      · exact .inl (lt_trans h1 h2)
      · exact .inl h1
      · exact .inl h2
      · exact .inr ⟨rfl, strcmp_lt_trans h1 h2⟩

theorem strcmp_eq_gt_iff {a b : List Char} : strcmp a b = .gt ↔ strcmp b a = .lt := by
  rw [strcmp_swap a b]; cases strcmp a b <;> simp [Ordering.swap]

/-- `fl_list_cmp(a, b)`: the order of the names; `none` where one of them is `NULL`. -/
def flListCmp (a b : FlNode) : Option Ordering := do
  let x ← a.name
  let y ← b.name
  pure (strcmp x y)

/-! ### The sequences -/

/-- The position `g_sequence_search(seq, x, fl_list_cmp, NULL)` finds: after every element
that does not compare greater than `x`. -/
def flSearch (H : FlHeap) (x : FlNode) : List Nat → Option Nat
  | [] => some 0
  | q :: qs => do
      let n ← H.nodes q
      let o ← flListCmp n x
      if o = .gt then some 0 else (flSearch H x qs).map (· + 1)

/-- Whether `fl_list_add` and `fl_list_remove` count a child in its parent's `hastth`:
`!isfile || (isfile && hastth)`. -/
def FlNode.countsTth (n : FlNode) : Bool := !n.isfile || (n.isfile && n.hastth ≠ 0)

/-! ### Walking up and down -/

/-- The loop of `fl_list_add` and `fl_list_remove` that applies `f` to the `size` of `par`
and of each of its ancestors, following `parent` pointers until one is `NULL`. -/
def flWalkSize (f : Nat → Nat) (H : FlHeap) : Nat → Option Nat → Option FlHeap
  | _, none => some H
  | 0, some _ => none
  | fuel + 1, some p => do
      let n ← H.nodes p
      flWalkSize f (H.set p { n with size := f n.size }) fuel n.parent

/-- `fl_list_free(fl)`: free the record and, through `g_sequence_free`, every record
below it. -/
def flListFree (H : FlHeap) : Nat → Nat → Option FlHeap
  | 0, _ => none
  | fuel + 1, q => do
      let n ← H.nodes q
      let H ← (n.sub.getD []).foldlM (fun H c => flListFree H fuel c) H
      some { H with nodes := Function.update H.nodes q none }

/-! ### The operations -/

/-- `fl_list_add(parent, cur)`: link `cur` under `parent`, sorted by name, count it in
`parent->hastth`, and add its size to `parent` and every ancestor. `none` where `parent`
is `NULL` or has no sequence: there C's `g_sequence_insert_sorted` only logs a critical. -/
def flListAdd (H : FlHeap) (parent : Option Nat) (cur : Nat) : Option FlHeap := do
  let c ← H.nodes cur
  let c := { c with parent := parent }
  let H := H.set cur c
  let par ← parent
  let p ← H.nodes par
  let sub ← p.sub
  let pos ← flSearch H c sub
  let hastth := if c.countsTth then p.hastth + 1 else p.hastth
  let H := H.set par { p with sub := some (sub.take pos ++ cur :: sub.drop pos),
                              hastth := hastth }
  flWalkSize (fun x => (x + c.size) % 2 ^ 64) H H.next (some par)

/-- `fl_list_remove(fl)`: find `fl` among its parent's children (its two `g_assert`s fail
with `none`), uncount it from `hastth`, subtract its size from every ancestor, unlink it
and free it with everything below it. -/
def flListRemove (H : FlHeap) (fl : Nat) : Option FlHeap := do
  let n ← H.nodes fl
  match n.parent with
  | none => flListFree H H.next fl
  | some par => do
      let pn ← H.nodes par
      let sub ← pn.sub
      let pos ← flSearch H n sub
      let i := pos - 1
      if sub[i]? = some fl then
        let H := H.set par { pn with hastth := if n.countsTth then pn.hastth - 1 else pn.hastth }
        let H ← flWalkSize (fun x => (x + 2 ^ 64 - n.size % 2 ^ 64) % 2 ^ 64) H H.next (some par)
        let pn ← H.nodes par
        flListFree (H.set par { pn with sub := some (sub.eraseIdx i) }) H.next fl
      else none

/-- One turn of `fl_list_copy`'s loop over the sequence of the record it copies to `cur`:
copy the child `c` with `copy`, point the copy back at `cur`, append it. -/
def copyStep (copy : FlHeap → Nat → Option (FlHeap × Nat)) (cur : Nat) (r : FlHeap × List Nat)
    (c : Nat) : Option (FlHeap × List Nat) := do
  let (H, t) ← copy r.1 c
  let tn ← H.nodes t
  some (H.set t { tn with parent := some cur }, r.2 ++ [t])

/-- `fl_list_copy(fl)`: a detached copy of `fl` and everything below it, at fresh pointers.
The copy's sequence is filled in the order of the original; nothing reads it before the
copy returns. -/
def flListCopy (H : FlHeap) : Nat → Nat → Option (FlHeap × Nat)
  | 0, _ => none
  | fuel + 1, q => do
      let n ← H.nodes q
      let (H, cur) := H.alloc { n with parent := none }
      match n.sub with
      | none => some (H, cur)
      | some qs => do
          let (H, subs) ← qs.foldlM (copyStep (fun H c => flListCopy H fuel c) cur) (H, [])
          let cn ← H.nodes cur
          some (H.set cur { cn with sub := some subs }, cur)

end Ncdc
