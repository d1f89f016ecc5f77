import Mathlib.Data.Int.Bitwise
import Ncdc.FileList.View

/-!
`fl_list_search`, the depth-first search that answers a `$Search` that is not a TTH lookup.
On a tree with I1-I3 the pruned search agrees with the plain path-based test, but at the
unnamed root of the share its `ninc[i] = NULL` stores one past the array.
-/

namespace Ncdc

open FlView

/-! ### The functions of the search -/

/-- Modelled from the spec: `str_casestr(haystack, needle)`, whether `needle` occurs in
`haystack`, ASCII letters compared without case. -/
def strCasestr (haystack needle : List Char) : Bool :=
  (haystack.map Char.toLower).tails.any ((needle.map Char.toLower).isPrefixOf ·)

/-- The search's parameters besides the include list: `size_m` and `size`, the `filedir`
mask and the extension list `ext`. -/
structure SearchQuery where
  sizeM : Int
  size : Nat
  filedir : Int
  ext : List (List Char)
  deriving DecidableEq, Repr

/-- `fl_list_search_match_name(fl, ext, inc)` on a record named `name`: every term of `inc`
in the name, and, unless `ext` is empty, a non-empty suffix after the last `.` equal to one
of the extensions up to ASCII case. -/
def flListSearchMatchName (name : List Char) (ext inc : List (List Char)) : Bool :=
  inc.all (strCasestr name ·) &&
    (ext.isEmpty ||
      ('.' ∈ name && match (name.reverse.takeWhile (· ≠ '.')).reverse with
        | [] => false
        | l => ext.any fun e => l.map Char.toLower = e.map Char.toLower))

/-- The kind and size tests of `fl_list_search_matches`. -/
def FlNode.searchKindSize (fl : FlNode) (q : SearchQuery) : Bool :=
  ((q.filedir.testBit 1 && !fl.isfile) || (q.filedir.testBit 0 && fl.isfile && fl.hastth != 0)) &&
    (q.sizeM == 0 || (q.sizeM < 0 && fl.size < q.size) || (0 < q.sizeM && q.size < fl.size))

/-- `fl_list_search_matches(fl, size_m, s, filedir, ext, inc)`: `none` where it reads the
name of a record whose name is `NULL`. -/
def flListSearchMatches (fl : FlNode) (q : SearchQuery) (inc : List (List Char)) : Option Bool :=
  if fl.searchKindSize q then
    if inc = [] ∧ q.ext = [] then some true else fl.name.map (flListSearchMatchName · q.ext inc)
  else some false

/-- The terms of `inc` that a directory named `name` does not hold: what the first loop of
`fl_list_search` copies into `ninc`. -/
def pruneInc (name : Option (List Char)) (inc : List (List Char)) : List (List Char) :=
  inc.filter fun t => name.all fun nm => !strCasestr nm t

/-- What a call of `fl_list_search` does: the count `i` it returns, its stores into `res` as
(index, pointer) pairs relative to the `res` it was given, in order, and whether it or a call
below it stored the terminator of `ninc` past its end. -/
structure SearchRun where
  count : Int
  writes : List (Int × Nat)
  overflow : Bool
  deriving DecidableEq, Repr

/-- `res[i++] = n` -/
def SearchRun.push (acc : SearchRun) (n : Nat) : SearchRun :=
  ⟨acc.count + 1, acc.writes ++ [(acc.count, n)], acc.overflow⟩

/-- `i += fl_list_search(n, ..., res+i, max-i)` -/
def SearchRun.append (acc r : SearchRun) : SearchRun :=
  ⟨acc.count + r.count, acc.writes ++ r.writes.map fun w => (acc.count + w.1, w.2),
    acc.overflow || r.overflow⟩

/-- The body of the loop of `fl_list_search` for the child `c`, with the count so far in
`acc`: store it if it matches, then search a directory while `i < max`. -/
def flListSearchVisit (H : FlHeap) (q : SearchQuery) (ninc : List (List Char)) (max : Int)
    (search : Nat → Int → Option SearchRun) (c : Nat) (acc : SearchRun) : Option SearchRun := do
  let n ← H.nodes c
  let m ← flListSearchMatches n q ninc
  let acc := if m then acc.push c else acc
  if n.isfile = false ∧ acc.count < max then (search c (max - acc.count)).map acc.append
  else some acc

/-- The loop of `fl_list_search` over the children, left while `i < max` fails. -/
def flListSearchLoop (visit : Nat → SearchRun → Option SearchRun) (max : Int) :
    List Nat → SearchRun → Option SearchRun
  | [], acc => some acc
  | c :: cs, acc => if acc.count < max then (visit c acc).bind (flListSearchLoop visit max cs)
      else some acc

/-- `fl_list_search(parent, size_m, size, filedir, ext, inc, res, max)`, with the pointers
handed out so far as fuel for the recursion. -/
def flListSearch (H : FlHeap) (q : SearchQuery) :
    Nat → Option Nat → List (List Char) → Int → Option SearchRun
  | _, none, _, _ => some ⟨0, [], false⟩
  | 0, some _, _, _ => none
  | fuel + 1, some p, inc, max => do
      let parent ← H.nodes p
      match parent.sub with
      | none => some ⟨0, [], false⟩
      | some sub =>
          let ninc := pruneInc parent.name inc
          flListSearchLoop
            (flListSearchVisit H q ninc max fun c => flListSearch H q fuel (some c) ninc) max sub
            ⟨0, [], ninc.length = inc.length⟩

/-! ### The plain search -/

/-- The terms of `inc` that none of the names `anc` holds. -/
def pruneAll (anc inc : List (List Char)) : List (List Char) :=
  inc.filter fun t => !anc.any (strCasestr · t)

/-- `fl_list_search_matches` with the include test on the path: each term of `inc` is in
the record's own name or in one of the names `anc` above it. -/
def searchMatchesPath (q : SearchQuery) (inc anc : List (List Char)) (fl : FlNode) : Bool :=
  fl.searchKindSize q && match fl.name with
    | some nm => inc.all (fun t => strCasestr nm t || anc.any (strCasestr · t)) &&
        flListSearchMatchName nm q.ext []
    | none => false

namespace FlView

mutual
/-- The proper descendants of a view in depth-first pre-order, children in sequence order,
each with the names from `anc` and the view's own name down to its parent. -/
def descents (anc : List (List Char)) : FlView → List (FlView × List (List Char))
  | node _ n cs => descentsList (anc ++ n.name.toList) cs
/-- The descendants through a list of children, with the names above them. -/
def descentsList (anc : List (List Char)) : List FlView → List (FlView × List (List Char))
  | [] => []
  | c :: cs => ((c, anc) :: descents anc c) ++ descentsList anc cs
end

theorem descentsList_eq (anc : List (List Char)) :
    ∀ cs : List FlView, descentsList anc cs = cs.flatMap fun c => (c, anc) :: descents anc c
  | [] => rfl
  | c :: cs => by rw [descentsList, descentsList_eq anc cs, List.flatMap_cons]

@[simp] theorem descents_node (anc : List (List Char)) (p : Nat) (n : FlNode) (cs : List FlView) :
    (node p n cs).descents anc = descentsList (anc ++ n.name.toList) cs := by
  rw [descents]

end FlView

/-- The pointers of the descendants that pass the plain test, in order. -/
def searchHits (q : SearchQuery) (inc : List (List Char))
    (ds : List (FlView × List (List Char))) : List Nat :=
  (ds.filter fun d => searchMatchesPath q inc d.2 d.1.record).map (·.1.ptr)

/-- Stores at consecutive indices from `i`. -/
def indexed : Int → List Nat → List (Int × Nat)
  | _, [] => []
  | i, x :: xs => (i, x) :: indexed (i + 1) xs

/-- A run that stored the pointers `P` at `res[0]` onwards and returned their number. -/
def SearchRun.ofList (P : List Nat) (ov : Bool) : SearchRun := ⟨P.length, indexed 0 P, ov⟩

@[simp] theorem SearchRun.ofList_count (P : List Nat) (ov : Bool) :
    (SearchRun.ofList P ov).count = P.length := rfl

/-! ### Stores at consecutive indices -/

theorem indexed_append (i : Int) (xs ys : List Nat) :
    indexed i (xs ++ ys) = indexed i xs ++ indexed (i + xs.length) ys := by
  induction xs generalizing i with
  | nil => simp [indexed]
  | cons x xs ih =>
      rw [List.cons_append, indexed, indexed, ih, List.cons_append, List.length_cons, Nat.cast_succ,
        add_right_comm, add_assoc]

theorem indexed_shift (i j : Int) (xs : List Nat) :
    (indexed j xs).map (fun w => (i + w.1, w.2)) = indexed (i + j) xs := by
  induction xs generalizing j with
  | nil => rfl
  | cons x xs ih => simp only [indexed, List.map_cons, ih, add_assoc]

theorem mem_indexed {i j : Int} {x : Nat} {xs : List Nat} (h : (j, x) ∈ indexed i xs) :
    i ≤ j ∧ j < i + xs.length := by
  induction xs generalizing i with
  | nil => cases h
  | cons y ys ih =>
      simp only [indexed, List.mem_cons, Prod.mk.injEq] at h
      rcases h with ⟨rfl, -⟩ | h
      · simp only [List.length_cons]; omega
      · have := ih h; simp only [List.length_cons]; omega

theorem lookup_indexed (i : Int) (P : List Nat) (j : Nat) :
    (indexed i P).lookup (i + j) = P[j]? := by
  induction P generalizing i j with
  | nil => rfl
  | cons x xs ih =>
      cases j with
      | zero => simp [indexed]
      | succ j =>
          have hne : (i + 1 + (j : Int) == i) = false := by simp; omega
          have hidx : i + ((j + 1 : Nat) : Int) = i + 1 + j := by push_cast; omega
          simp only [indexed, List.lookup_cons, hne, hidx, ih, List.getElem?_cons_succ]

theorem SearchRun.ofList_push (P : List Nat) (ov : Bool) (c : Nat) :
    (SearchRun.ofList P ov).push c = .ofList (P ++ [c]) ov := by
  simp [SearchRun.ofList, SearchRun.push, indexed_append, indexed]

theorem SearchRun.ofList_append (P Q : List Nat) (ov ov' : Bool) :
    (SearchRun.ofList P ov).append (.ofList Q ov') = .ofList (P ++ Q) (ov || ov') := by
  simp only [SearchRun.ofList, SearchRun.append, indexed_shift, indexed_append, List.length_append,
    add_zero, Nat.cast_add, zero_add]

/-! ### The pruned include list against the path -/

theorem pruneInc_pruneAll (name : Option (List Char)) (anc inc : List (List Char)) :
    pruneInc name (pruneAll anc inc) = pruneAll (anc ++ name.toList) inc := by
  cases name <;> simp [pruneInc, pruneAll, List.filter_filter, Bool.and_comm]

@[simp] theorem pruneAll_nil (inc : List (List Char)) : pruneAll [] inc = inc := by
  simp [pruneAll]

theorem all_pruneAll (nm : List Char) (anc inc : List (List Char)) :
    (pruneAll anc inc).all (strCasestr nm ·) =
      inc.all fun t => strCasestr nm t || anc.any (strCasestr · t) := by
  simp only [pruneAll, List.all_filter]
  congr 1; funext t; cases strCasestr nm t <;> cases anc.any (strCasestr · t) <;> rfl

theorem flListSearchMatchName_eq (nm : List Char) (ext inc : List (List Char)) :
    flListSearchMatchName nm ext inc =
      (inc.all (strCasestr nm ·) && flListSearchMatchName nm ext []) := by
  simp [flListSearchMatchName]

theorem flListSearchMatches_pruneAll {fl : FlNode} (hn : fl.name.isSome) (q : SearchQuery)
    (anc inc : List (List Char)) :
    flListSearchMatches fl q (pruneAll anc inc) = some (searchMatchesPath q inc anc fl) := by
  obtain ⟨nm, hnm⟩ := Option.isSome_iff_exists.1 hn
  have hname : flListSearchMatchName nm q.ext (pruneAll anc inc) =
      (inc.all (fun t => strCasestr nm t || anc.any (strCasestr · t)) &&
        flListSearchMatchName nm q.ext []) := by
    rw [flListSearchMatchName_eq, all_pruneAll]
  unfold flListSearchMatches searchMatchesPath
  rw [hnm]
  split_ifs with hk he
  · simp only [hk, Bool.true_and, ← all_pruneAll nm anc inc, he.1, he.2]; rfl
  · simp only [hk, Bool.true_and, Option.map_some', hname]
  · simp only [hk, Bool.false_and]

/-! ### The loop over the children -/

@[simp] theorem searchHits_nil (q : SearchQuery) (inc : List (List Char)) :
    searchHits q inc [] = [] := rfl

theorem searchHits_append (q : SearchQuery) (inc : List (List Char))
    (l₁ l₂ : List (FlView × List (List Char))) :
    searchHits q inc (l₁ ++ l₂) = searchHits q inc l₁ ++ searchHits q inc l₂ := by
  simp [searchHits]

theorem searchHits_cons (q : SearchQuery) (inc : List (List Char)) (d : FlView × List (List Char))
    (l : List (FlView × List (List Char))) :
    searchHits q inc (d :: l) =
      (if searchMatchesPath q inc d.2 d.1.record then [d.1.ptr] else []) ++ searchHits q inc l := by
  simp only [searchHits, List.filter_cons]; split <;> rfl

theorem take_append_of_length_le {α : Type} {A : List α} {n : Nat} (B : List α)
    (h : A.length ≤ n) : (A ++ B).take n = A ++ B.take (n - A.length) := by
  rw [List.take_append_eq_append_take, List.take_of_length_le h]

theorem take_take_append {α : Type} (n : Nat) (A C : List α) :
    (A.take n ++ C).take n = (A ++ C).take n := by
  rw [List.take_append_eq_append_take, List.take_append_eq_append_take, List.take_take,
    List.length_take, min_self]
  congr 2; omega

theorem ptrs_length_lt_of_mem {p : Nat} {n : FlNode} {cs : List FlView} {c : FlView}
    (hc : c ∈ cs) : c.ptrs.length < (node p n cs).ptrs.length := by
  rw [ptrs_node, List.length_cons, Nat.lt_succ_iff, List.flatMap_def]
  exact (List.sublist_flatten_of_mem (List.mem_map_of_mem _ hc)).length_le

theorem exists_eq_succ_of_ptrs_le {v : FlView} {fuel : Nat} (h : v.ptrs.length ≤ fuel) :
    ∃ f, fuel = f + 1 := by
  obtain ⟨p, n, cs⟩ := v
  exact ⟨fuel - 1, by simp only [ptrs_node, List.length_cons] at h; omega⟩

/-- What the loop needs of a child `c`: its record at its pointer, a name, no children if it
is a file, and a call on it that stores the first hits below it, for any bound. -/
structure SearchChildOk (H : FlHeap) (q : SearchQuery) (inc anc : List (List Char))
    (search : Nat → Int → Option SearchRun) (c : FlView) : Prop where
  nodes : H.nodes c.ptr = some c.record
  named : c.record.name.isSome
  file : c.record.isfile = true → c.children = []
  call : ∀ m, ∃ ov, search c.ptr m =
    some (.ofList ((searchHits q inc (c.descents anc)).take m.toNat) ov)

section Loop

variable {H : FlHeap} {q : SearchQuery} {inc anc : List (List Char)} {max : Int}
  {search : Nat → Int → Option SearchRun}

theorem flListSearchVisit_ofList {c : FlView} (hc : SearchChildOk H q inc anc search c)
    {P : List Nat} (hP : P.length < max.toNat) (ov : Bool) :
    ∃ ov', flListSearchVisit H q (pruneAll anc inc) max search c.ptr (.ofList P ov) =
      some (.ofList ((P ++ searchHits q inc ((c, anc) :: c.descents anc)).take max.toNat) ov') := by
  generalize hb : searchMatchesPath q inc anc c.record = b
  obtain ⟨P₁, hP₁def⟩ : ∃ P₁, P₁ = if b then P ++ [c.ptr] else P := ⟨_, rfl⟩
  have hP₁ : P₁.length ≤ max.toNat := by cases b <;> simp [hP₁def] <;> omega
  have hacc :
      (if b then (SearchRun.ofList P ov).push c.ptr else .ofList P ov) = .ofList P₁ ov := by
    cases b <;> simp [hP₁def, SearchRun.ofList_push]
  have htarget : P ++ searchHits q inc ((c, anc) :: c.descents anc) =
      P₁ ++ searchHits q inc (c.descents anc) := by
    rw [searchHits_cons, hb]; cases b <;> simp [hP₁def]
  rw [htarget, take_append_of_length_le _ hP₁]
  simp only [flListSearchVisit, hc.nodes, flListSearchMatches_pruneAll hc.named, hb,
    Option.bind_eq_bind, Option.some_bind, hacc, SearchRun.ofList_count]
  split_ifs with hrec
  · obtain ⟨ov', hcall⟩ := hc.call (max - P₁.length)
    rw [hcall, Option.map_some', SearchRun.ofList_append,
      show (max - P₁.length).toNat = max.toNat - P₁.length by omega]
    exact ⟨_, rfl⟩
  · refine ⟨ov, ?_⟩
    cases hf : c.record.isfile
    · rw [Nat.sub_eq_zero_of_le (by simp only [hf, true_and] at hrec; omega), List.take_zero,
        List.append_nil]
    · obtain ⟨p, n, cs⟩ := c
      obtain rfl : cs = [] := hc.file hf
      simp [descentsList]

theorem flListSearchLoop_ofList :
    ∀ {cs : List FlView}, (∀ c ∈ cs, SearchChildOk H q inc anc search c) →
    ∀ {P : List Nat} (ov : Bool), P.length ≤ max.toNat → ∃ ov',
      flListSearchLoop (flListSearchVisit H q (pruneAll anc inc) max search) max (cs.map ptr)
          (.ofList P ov) =
        some (.ofList ((P ++ searchHits q inc (descentsList anc cs)).take max.toNat) ov')
  | [], _, P, ov, hP => ⟨ov, by
      rw [descentsList, searchHits_nil, List.append_nil, List.take_of_length_le hP]; rfl⟩
  | c :: cs, hcs, P, ov, hP => by
      rw [List.map_cons, flListSearchLoop]
      split_ifs with hlt
      · have hlt' : P.length < max.toNat := by rw [SearchRun.ofList_count] at hlt; omega
        obtain ⟨ov₁, hv⟩ := flListSearchVisit_ofList (hcs c (.head _)) hlt' ov
        obtain ⟨ov₂, hl⟩ := flListSearchLoop_ofList (fun d hd => hcs d (.tail _ hd)) ov₁
          (List.length_take_le _ _)
        refine ⟨ov₂, ?_⟩
        rw [hv, Option.some_bind, hl, take_take_append, descentsList, searchHits_append,
          List.append_assoc]
      · refine ⟨ov, ?_⟩
        rw [take_append_of_length_le _ hP,
          Nat.sub_eq_zero_of_le (by rw [SearchRun.ofList_count] at hlt; omega), List.take_zero,
          List.append_nil]

end Loop

/-! ### The search on a tree -/

/-- On a view with I1-I3 and enough fuel, a call with the terms the names `anc` above it
leave stores the first `max` hits of the plain search below it. -/
theorem flListSearch_ofList {H : FlHeap} (q : SearchQuery) (inc : List (List Char)) :
    ∀ (u : FlView) {fuel : Nat} (anc : List (List Char)) (max : Int), u.Unfolds H → u.Good →
      u.ptrs.length ≤ fuel → ∃ ov, flListSearch H q fuel (some u.ptr) (pruneAll anc inc) max =
        some (.ofList ((searchHits q inc (u.descents anc)).take max.toNat) ov) := by
  intro u
  induction u using FlView.induct with
  | node p n cs ih =>
    intro fuel anc max hv hg hfuel
    obtain ⟨f, rfl⟩ := exists_eq_succ_of_ptrs_le hfuel
    obtain ⟨hnode, hsub, -⟩ := hv _ (mem_subtrees_self _)
    have hok := hg.nodes _ (mem_subtrees_self _)
    simp only [ptr_node, record_node, children_node] at hnode hsub hok
    simp only [flListSearch, ptr_node, hnode, Option.bind_eq_bind, Option.some_bind]
    cases hs : n.sub with
    | none =>
        obtain rfl : cs = [] := List.map_eq_nil_iff.1 (by rw [← hsub, hs]; rfl)
        exact ⟨false, by simp [descentsList]; rfl⟩
    | some sub =>
        have hdir : n.isfile = false := by
          cases hf : n.isfile
          · rfl
          · unfold NodeOk at hok; simp [hf, hs] at hok
        have hdok := (hok.dir hdir).2
        rw [show sub = cs.map ptr by rw [← hsub, hs]; rfl, pruneInc_pruneAll, descents_node]
        refine flListSearchLoop_ofList (P := []) (fun c hc => ?_) _ (Nat.zero_le _)
        have hcm := subtrees_subset_of_mem (p := p) (n := n) hc (mem_subtrees_self c)
        exact ⟨(hv.sub hcm).nodes, hdok.named c hc,
          children_eq_nil_of_file (hv.sub hcm) (hg.nodes c hcm),
          fun m => ih c hc _ m (hv.sub hcm) (hg.sub hcm)
            (Nat.lt_succ_iff.1 ((ptrs_length_lt_of_mem hc).trans_le hfuel))⟩

/-! ### A share with one song -/

def songFile : FlNode :=
  { FlNode.zero with
    name := some "a.mp3".toList
    parent := some 1
    size := 5
    hastth := 1
    isfile := true }

def songDir : FlNode :=
  { FlNode.zero with
    name := some "d".toList
    parent := some 0
    sub := some [2]
    size := 5
    hastth := 1 }

def songRoot : FlNode := { FlNode.zero with sub := some [1], size := 5, hastth := 1 }

def songView : FlView := node 0 songRoot [node 1 songDir [node 2 songFile []]]

def mp3Query : SearchQuery := ⟨0, 0, 1, ["mp3".toList]⟩

def songHeap : FlHeap :=
  ⟨fun x => if x = 0 then some songRoot else if x = 1 then some songDir
    else if x = 2 then some songFile else none, 3⟩

theorem songView_unfolds : songView.Unfolds songHeap := by
  intro w hw
  simp only [songView, subtrees_node, List.flatMap_cons, List.flatMap_nil, List.append_nil,
    List.mem_cons, List.mem_singleton, List.not_mem_nil, or_false] at hw
  rcases hw with rfl | rfl | rfl <;> exact ⟨rfl, rfl, by simp [songDir, songFile]⟩

theorem songView_good : songView.Good := by
  refine ⟨by decide, fun w hw => ?_⟩
  simp only [songView, subtrees_node, List.flatMap_cons, List.flatMap_nil, List.append_nil,
    List.mem_cons, List.mem_singleton, List.not_mem_nil, or_false] at hw
  rcases hw with rfl | rfl | rfl
  · exact nodeOk_of_dir rfl ⟨rfl, by simp [songDir], List.Chain.nil, by simp [songRoot, songDir],
      by simp [songRoot, songDir, FlNode.zero]⟩
  · exact nodeOk_of_dir rfl ⟨rfl, by simp [songFile], List.Chain.nil,
      by simp [songDir, songFile], by simp [songDir, songFile]⟩
  · unfold NodeOk; simp [songFile, FlNode.zero]

/-! ### The terminator of `ninc` -/

@[simp] theorem pruneInc_none (inc : List (List Char)) : pruneInc none inc = inc := by
  simp [pruneInc]

theorem flListSearchVisit_overflow {H : FlHeap} {q : SearchQuery} {ninc : List (List Char)}
    {max : Int} {search : Nat → Int → Option SearchRun} {c : Nat} {acc r : SearchRun}
    (h : flListSearchVisit H q ninc max search c acc = some r) (ho : acc.overflow = true) :
    r.overflow = true := by
  simp only [flListSearchVisit, Option.bind_eq_bind] at h
  obtain ⟨n, -, h⟩ := Option.bind_eq_some.1 h
  obtain ⟨m, -, h⟩ := Option.bind_eq_some.1 h
  have ho' : (if m then acc.push c else acc).overflow = true := by split <;> exact ho
  generalize (if m then acc.push c else acc) = acc' at h ho'
  split_ifs at h
  · obtain ⟨r', -, rfl⟩ := Option.map_eq_some'.1 h
    simp [SearchRun.append, ho']
  · cases h; exact ho'

theorem flListSearchLoop_overflow {visit : Nat → SearchRun → Option SearchRun} {max : Int}
    (hv : ∀ c acc r, visit c acc = some r → acc.overflow = true → r.overflow = true) :
    ∀ {cs : List Nat} {acc r : SearchRun}, flListSearchLoop visit max cs acc = some r →
      acc.overflow = true → r.overflow = true
  | [], _, _, h, ho => by cases h; exact ho
  | c :: cs, acc, r, h, ho => by
      rw [flListSearchLoop] at h
      split_ifs at h
      · obtain ⟨acc', hc, h⟩ := Option.bind_eq_some.1 h
        exact flListSearchLoop_overflow hv h (hv c acc acc' hc ho)
      · cases h; exact ho

theorem flListSearch_root_overflow {H : FlHeap} {v : FlView} {fuel : Nat} (hv : v.Unfolds H)
    (hg : v.Good) (hfuel : v.ptrs.length ≤ fuel) (hroot : v.record.name = none)
    (hdir : v.record.isfile = false) (q : SearchQuery) (inc : List (List Char)) (max : Int) :
    ∃ r, flListSearch H q fuel (some v.ptr) inc max = some r ∧ r.overflow = true := by
  obtain ⟨ov, h⟩ := flListSearch_ofList q inc v [] max hv hg hfuel
  rw [pruneAll_nil] at h
  refine ⟨_, h, ?_⟩
  obtain ⟨p, n, cs⟩ := v
  obtain ⟨f, rfl⟩ := exists_eq_succ_of_ptrs_le hfuel
  obtain ⟨sub, hs⟩ := Option.isSome_iff_exists.1 ((hg.nodes _ (mem_subtrees_self _)).dir hdir).1
  have hnode : H.nodes p = some n := hv.nodes
  simp only [record_node] at hroot hs
  simp only [flListSearch, ptr_node, hnode, Option.bind_eq_bind, Option.some_bind, hs, hroot,
    pruneInc_none] at h
  exact flListSearchLoop_overflow (fun _ _ _ => flListSearchVisit_overflow) h (by simp)

/-- At a directory whose name is `NULL`, the root of the share, the search keeps every
term, and stores the terminator of `ninc` one past its `g_strv_length(inc)` slots, whatever
the query, the terms and the bound. -/
theorem fl_list_search_ninc_overflow {H : FlHeap} {v : FlView} {fuel : Nat} (hv : v.Unfolds H)
    (hg : v.Good) (hfuel : v.ptrs.length ≤ fuel) (hroot : v.record.name = none)
    (hdir : v.record.isfile = false) (q : SearchQuery) (inc : List (List Char)) (max : Int) :
    ∃ r, flListSearch H q fuel (some v.ptr) inc max = some r ∧ r.overflow = true :=
  flListSearch_root_overflow hv hg hfuel hroot hdir q inc max

/-- The search of the song share for `D` from its root stores past `ninc`. -/
theorem song_search_stores_past_ninc :
    songView.record.name = none ∧ songView.record.isfile = false ∧
      ∃ r, flListSearch songHeap mp3Query 3 (some songView.ptr) ["D".toList] 10 = some r ∧
        r.overflow = true :=
  ⟨rfl, rfl, fl_list_search_ninc_overflow songView_unfolds songView_good (by decide) rfl rfl
    mp3Query ["D".toList] 10⟩

/-- For every tree with I1-I3, query and `max ≥ 0`, `fl_list_search` returns `min(max, m)` for the
`m` nodes the plain search finds and stores them in order from `res[0]`, within `res[0..max)`. At a
root whose name is `NULL` it gets there only past its out-of-bounds `ninc` store. -/
theorem fl_list_search_refines {H : FlHeap} {v : FlView} {fuel : Nat} (hv : v.Unfolds H)
    (hg : v.Good) (hfuel : v.ptrs.length ≤ fuel) (q : SearchQuery) (inc : List (List Char))
    {max : Int} (hmax : 0 ≤ max) :
    ∃ r, flListSearch H q fuel (some v.ptr) inc max = some r ∧
      r.count = min max (searchHits q inc (v.descents [])).length ∧
      r.writes = indexed 0 ((searchHits q inc (v.descents [])).take max.toNat) ∧
      (∀ w ∈ r.writes, 0 ≤ w.1 ∧ w.1 < max) ∧
      (v.record.name = none → v.record.isfile = false → r.overflow = true) := by
  obtain ⟨ov, h⟩ := flListSearch_ofList q inc v [] max hv hg hfuel
  rw [pruneAll_nil] at h
  refine ⟨_, h, ?_, rfl, fun w hw => ?_, fun hroot hdir => ?_⟩
  · simp only [SearchRun.ofList, List.length_take]; omega
  · have := mem_indexed hw
    have := List.length_take_le max.toNat (searchHits q inc (v.descents []))
    omega
  · obtain ⟨r, hr, hov⟩ := flListSearch_root_overflow hv hg hfuel hroot hdir q inc max
    rw [h, Option.some.injEq] at hr
    exact hr ▸ hov

/-- The term `D` is held only by the directory above the song: the search from the share's
root stores the song at `res[0]`, after a store past `ninc`. -/
theorem song_found_through_dir :
    (0 : Int) ≤ 10 ∧ searchHits mp3Query ["D".toList] (songView.descents []) = [2] ∧
      ∃ r, flListSearch songHeap mp3Query 3 (some songView.ptr) ["D".toList] 10 = some r ∧
        r.count = min 10 (searchHits mp3Query ["D".toList] (songView.descents [])).length ∧
        r.writes = indexed 0 ((searchHits mp3Query ["D".toList] (songView.descents [])).take
          (10 : Int).toNat) ∧
        (∀ w ∈ r.writes, 0 ≤ w.1 ∧ w.1 < 10) ∧
        (songView.record.name = none → songView.record.isfile = false → r.overflow = true) :=
  ⟨by decide, by decide, fl_list_search_refines songView_unfolds songView_good (by decide) mp3Query
    ["D".toList] (by decide)⟩

end Ncdc
