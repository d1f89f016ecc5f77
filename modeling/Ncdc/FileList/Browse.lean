import Ncdc.FileList.Path

/-!
Two helpers of the file browser: `fl_list_is_child`, which walks the `parent` pointers up
from a node, and `fl_list_suggest`, which completes a path typed relative to the root.
-/

namespace Ncdc

open FlView

/-! ### `fl_list_is_child` -/

/-- The loop of `fl_list_is_child` from `o`: `TRUE` at `parent`, `FALSE` at a `NULL`
pointer. -/
def isChildLoop (H : FlHeap) (parent : Nat) : Nat → Option Nat → Option Bool
  | _, none => some false
  | 0, some _ => none
  | fuel + 1, some p =>
      if p = parent then some true
      else do
        let n ← H.nodes p
        isChildLoop H parent fuel n.parent

/-- `fl_list_is_child(parent, child)`: the loop started at `child->parent`. -/
def flListIsChild (H : FlHeap) (parent child : Nat) : Option Bool := do
  let c ← H.nodes child
  isChildLoop H parent H.next c.parent

theorem isChildLoop_upChain {H : FlHeap} (parent : Nat) {o : Option Nat} {S : List Nat}
    (hc : H.UpChain o S) : ∀ {fuel : Nat}, S.length ≤ fuel →
      isChildLoop H parent fuel o = some (decide (parent ∈ S)) := by
  induction hc with
  | top => intro fuel _; cases fuel <;> rfl
  | @up p n S hp _ ih =>
    intro fuel hf
    obtain ⟨k, rfl⟩ : ∃ k, fuel = k + 1 := ⟨fuel - 1, by simp at hf; omega⟩
    by_cases hpp : p = parent
    · simp [isChildLoop, hpp]
    · simp [isChildLoop, hpp, hp, ih (show S.length ≤ k by simp at hf; omega), Ne.symm hpp]

theorem FlHeap.TreeOk.isChild {H : FlHeap} {root : Nat} {v : FlView} (ht : H.TreeOk root v)
    (hb : H.Bounded) {a x : Nat} (ha : H.Below root a) (hx : H.Below root x) :
    ∃ b, flListIsChild H a x = some b ∧ (b = true ↔ x ≠ a ∧ H.Below a x) := by
  obtain ⟨w, hw, rfl⟩ := ht.subtree ha
  obtain ⟨S, hS, hSn, hSv, hch⟩ :=
    rootChain ht.unfolds ht.good.nodup ht.detached ((ht.below x).1 hx)
  cases hch with
  | @up _ n S' hn hrest =>
    obtain ⟨hxS', -⟩ := List.nodup_cons.1 hSn
    have hfuel : S'.length ≤ H.next := calc
      S'.length ≤ (x :: S').length := Nat.le_succ _
      _ ≤ v.ptrs.length := (hSn.subperm hSv).length_le
      _ ≤ H.next := ht.fuel hb
    refine ⟨decide (w.ptr ∈ S'), by
      simp [flListIsChild, hn, isChildLoop_upChain _ hrest hfuel], ?_⟩
    rw [decide_eq_true_iff, below_iff (ht.unfolds.sub hw), ← hS w hw, List.mem_cons]
    constructor
    · exact fun h => ⟨fun he => hxS' (he ▸ h), .inr h⟩
    · rintro ⟨hne, rfl | h⟩
      · exact absurd rfl hne
      · exact h

/-- On every heap the file-list operations reach from a fresh root, for every two nodes `a`
and `x` of the tree: `fl_list_is_child(a, x)` returns, and it returns `TRUE` exactly when `x`
is reached from `a` through the sequences and is not `a`. -/
theorem fl_list_is_child_below {root : Nat} {H : FlHeap} (h : FlReachable root H) {a x : Nat}
    (ha : H.Below root a) (hx : H.Below root x) :
    ∃ b, flListIsChild H a x = some b ∧ (b = true ↔ x ≠ a ∧ H.Below a x) := by
  obtain ⟨⟨v, ht⟩, hb⟩ := h.treeOk
  exact ht.isChild hb ha hx

/-- The file `a` listed under the root: `fl_list_is_child(root, a)` walks up from `a` and
returns `TRUE`. -/
theorem file_a_is_child_of_root :
    flListIsChild ((flListAdd rootAndFileA (some 0) 1).getD rootAndFileA) 0 1 = some true ∧
      ∃ b, flListIsChild ((flListAdd rootAndFileA (some 0) 1).getD rootAndFileA) 0 1 = some b ∧
        (b = true ↔ 1 ≠ 0 ∧ ((flListAdd rootAndFileA (some 0) 1).getD rootAndFileA).Below 0 1) :=
  ⟨rfl, fl_list_is_child_below fileA_added_reachable .root
    (.sub .root rfl (by decide))⟩

/-! ### `fl_list_suggest` -/

/-- `strncmp(a, b, n)`: `strcmp` of at most the first `n` characters of each. -/
def strncmp (a b : List Char) (n : Nat) : Ordering := strcmp (a.take n) (b.take n)

theorem strncmp_eq_iff {nm name : List Char} :
    strncmp nm name name.length = .eq ↔ nm.take name.length = name := by
  rw [strncmp, List.take_length, strcmp_eq_iff]

/-- `strrchr(path, '/')` and the cut `fl_list_suggest` makes there: the path before the last
`/` and the name after it; `none` where the path has no `/`. -/
def strrchrSlash (p : List Char) : Option (List Char × List Char) :=
  let name := (p.reverse.takeWhile (· != '/')).reverse
  if name.length < p.length then some (p.take (p.length - name.length - 1), name) else none

theorem strrchrSlash_append {dir name : List Char} (h : '/' ∉ name) :
    strrchrSlash (dir ++ '/' :: name) = some (dir, name) := by
  have hne : ∀ c ∈ name.reverse, (c != '/') = true :=
    fun c hc => bne_iff_ne.2 fun e => h (e ▸ List.mem_reverse.1 hc)
  have htw : ((dir ++ '/' :: name).reverse.takeWhile (· != '/')).reverse = name := by
    rw [List.reverse_append, List.reverse_cons, List.append_assoc, List.singleton_append,
      List.takeWhile_append_of_pos hne]
    simp
  simp only [strrchrSlash, htw, List.length_append, List.length_cons]
  rw [if_pos (by omega), show dir.length + (name.length + 1) - name.length - 1 = dir.length by
    omega, List.take_left]

/-- The loop of `fl_list_suggest` over `parent->sub`, with `k` suggestions left to make: a
child whose name starts with `name` is offered as `path/name`, with a `/` more for a
directory. -/
def suggestLoop (H : FlHeap) (path name : List Char) :
    Nat → List Nat → Option (List (List Char))
  | 0, _ => some []
  | _ + 1, [] => some []
  | k + 1, q :: qs => do
      let n ← H.nodes q
      let nm ← n.name
      if strncmp nm name name.length = .eq then
        let s := if n.isfile then path ++ '/' :: nm else path ++ '/' :: nm ++ ['/']
        (suggestLoop H path name k qs).map (s :: ·)
      else suggestLoop H path name (k + 1) qs

/-- `fl_list_suggest(root, opath, sug)`: the strings it stores in `sug`, in order. `none` where
it crashes: in `fl_list_from_path`, or in the loop on the `NULL` sequence of a file, from
which `g_sequence_get` returns `NULL` and `n->name` reads through it. -/
def flListSuggest (H : FlHeap) (root : Nat) (opath : List Char) : Option (List (List Char)) := do
  let (path, name, parent) ← match strrchrSlash opath with
    | some (path, name) => (flListFromPath H root path).map fun p => (path, name, p)
    | none => some ([], opath, some root)
  match parent with
  | none => some []
  | some p => do
      let n ← H.nodes p
      let sub ← n.sub
      suggestLoop H path name 20 sub

/-- The suggestion for a child `c` of the directory `dir` reaches. -/
def FlView.suggestion (dir : List Char) (c : FlView) : List Char :=
  dir ++ '/' :: c.record.name.getD [] ++ if c.record.isfile then [] else ['/']

/-- What `fl_list_suggest` offers at a directory `w` for a path typed as `dir/name`: each
child whose name starts with `name`, in the order of the sequence, at most 20. -/
def FlView.suggestions (w : FlView) (dir name : List Char) : List (List Char) :=
  ((w.children.filter fun c => (c.record.name.getD []).take name.length = name).take 20).map
    (suggestion dir)

theorem suggestLoop_children {H : FlHeap} {path name : List Char} :
    ∀ (k : Nat) (cs : List FlView),
      (∀ c ∈ cs, H.nodes c.ptr = some c.record ∧ c.record.name.isSome) →
      suggestLoop H path name k (cs.map ptr) =
        some (((cs.filter fun c => (c.record.name.getD []).take name.length = name).take k).map
          (suggestion path))
  | 0, _, _ => by simp [suggestLoop]
  | _ + 1, [], _ => rfl
  | k + 1, c :: cs, hcs => by
      obtain ⟨hn, hnm⟩ := hcs c (List.mem_cons_self c cs)
      obtain ⟨nm, hnm⟩ := Option.isSome_iff_exists.1 hnm
      have ih := fun k => @suggestLoop_children H path name k cs
        fun d hd => hcs d (List.mem_cons_of_mem c hd)
      by_cases hp : nm.take name.length = name
      · simp only [List.map_cons, suggestLoop, hn, hnm, Option.bind_eq_bind, Option.some_bind,
          strncmp_eq_iff.2 hp, if_true, ih, Option.map_some', List.filter_cons, Option.getD_some,
          hp, decide_True, List.take_succ_cons, List.map_cons, suggestion]
        split <;> simp_all
      · simp only [List.map_cons, suggestLoop, hn, hnm, Option.bind_eq_bind, Option.some_bind,
          mt strncmp_eq_iff.1 hp, if_false, ih, List.filter_cons, Option.getD_some, hp,
          decide_False]
        rfl

section Suggest

variable {H : FlHeap} {T : FlView}

theorem flListSuggest_view (hT : T.Unfolds H) (hg : T.Good) {dir name : List Char}
    (hname : '/' ∉ name) {w : FlView} (hw : w ∈ T.subtrees)
    (hdir : flListFromPath H T.ptr dir = some (some w.ptr)) :
    flListSuggest H T.ptr (dir ++ '/' :: name) =
      if w.record.isfile then none else some (w.suggestions dir name) := by
  have hwu := hT.sub hw
  have hok := hg.nodes w hw
  simp only [flListSuggest, strrchrSlash_append hname, hdir, Option.map_some', hwu.nodes,
    Option.bind_eq_bind, Option.some_bind]
  cases hf : w.record.isfile
  · obtain ⟨hsome, hd⟩ := hok.dir hf
    rw [FlView.sub_eq (hwu w (mem_subtrees_self w)) hsome]
    simpa [suggestions] using suggestLoop_children 20 w.children
      fun c hc => ⟨(hwu.sub (mem_subtrees_of_child hc)).nodes, hd.named c hc⟩
  · unfold NodeOk at hok
    rw [if_pos hf] at hok
    simp [hok.1]

/-- For every tree with I1-I3 and every typed `dir/name` whose `dir` resolves to a node `w`: at a
directory, `fl_list_suggest` offers the first 20 children of `w` starting with `name`, in sequence
order; at a file it reads through the `NULL` sequence. -/
theorem fl_list_suggest_children (hT : T.Unfolds H) (hg : T.Good) {dir name : List Char}
    (hname : '/' ∉ name) {w : FlView} (hw : w ∈ T.subtrees)
    (hdir : flListFromPath H T.ptr dir = some (some w.ptr)) :
    flListSuggest H T.ptr (dir ++ '/' :: name) =
      if w.record.isfile then none else some (w.suggestions dir name) :=
  flListSuggest_view hT hg hname hw hdir

/-- Completing `/a` at the root of `oneFileShare`. -/
theorem one_file_share_suggests :
    flListSuggest oneFileShare oneFileTree.ptr ([] ++ '/' :: "a".toList) =
      if oneFileTree.record.isfile then none else some (oneFileTree.suggestions [] "a".toList) :=
  fl_list_suggest_children oneFileTree_unfolds oneFileTree_good (by decide) (mem_subtrees_self _)
    (flListFromPath_nil _ _)

theorem flListFromPath_append_slash {v : FlView} {p : List Char} {x : Nat} {m : FlNode}
    (hv : v.Unfolds H) (hg : v.Good) (h : flListFromPath H v.ptr p = some (some x))
    (hx : H.nodes x = some m) (hm : m.isfile = false) (q : List Char) :
    flListFromPath H v.ptr (p ++ '/' :: q) = flListFromPath H x q := by
  obtain ⟨nm, t, rfl, hsl, ht⟩ := exists_name_append p
  rcases nm with _ | ⟨c, nm⟩
  · cases t with
    | nil =>
        obtain rfl : v.ptr = x := by simpa using h
        exact flListFromPath_slash H v.ptr q
    | cons s rest =>
        obtain rfl : s = '/' := ht s rfl
        rw [List.nil_append, flListFromPath_slash] at h
        rw [List.nil_append, List.cons_append, flListFromPath_slash]
        exact flListFromPath_append_slash hv hg h hx hm q
  · have hok := hg.nodes v (mem_subtrees_self v)
    cases hd : v.record.isfile
    · have ht' : ∀ c ∈ (t ++ '/' :: q).head?, c = '/' := by cases t <;> simp_all
      rw [flListFromPath_dir hv hok hd (List.cons_ne_nil c nm) hsl ht] at h
      rw [List.append_assoc, flListFromPath_dir hv hok hd (List.cons_ne_nil c nm) hsl ht']
      cases hc : v.child? (c :: nm) with
      | none => simp [hc] at h
      | some d =>
          have hds : d ∈ v.subtrees := mem_subtrees_of_child (child?_spec hc).1
          rw [hc] at h
          cases t with
          | nil =>
              obtain rfl : d.ptr = x := by simpa using h
              obtain rfl : d.record = m := Option.some.inj ((hv.sub hds).nodes.symm.trans hx)
              simp [hm]
          | cons s rest =>
              obtain rfl : s = '/' := ht s rfl
              simp only [List.cons_ne_nil, if_false, List.tail_cons, List.cons_append] at h ⊢
              split at h
              · cases h
              · rw [if_neg (by assumption)]
                exact flListFromPath_append_slash (hv.sub hds) (hg.sub hds) h hx hm q
    · unfold NodeOk at hok
      rw [if_pos hd] at hok
      rw [flListFromPath_name_append H v.ptr (List.cons_ne_nil c nm) hsl ht] at h
      simp [hv.nodes, hok.1] at h
termination_by p.length

theorem suggestion_resolves (hT : T.Unfolds H) (hg : T.Good) (hp : T.PlainNames)
    {dir : List Char} {w : FlView} (hw : w ∈ T.subtrees)
    (hdir : flListFromPath H T.ptr dir = some (some w.ptr)) (hwd : w.record.isfile = false)
    {c : FlView} (hc : c ∈ w.children) :
    flListFromPath H T.ptr (suggestion dir c) = some (some c.ptr) ∧
      ((suggestion dir c).getLast? = some '/' ↔ c.record.isfile = false) := by
  have hwu := hT.sub hw
  have hok := hg.nodes w hw
  have hdirok := (hok.dir hwd).2
  obtain ⟨nm, hnm⟩ := Option.isSome_iff_exists.1 (hdirok.named c hc)
  obtain ⟨hne, hsl⟩ := hp w hw c hc nm hnm
  have hchild : w.child? nm = some c := by
    rw [child?, find?_name_of_pairwise hnm (List.chain'_iff_pairwise.1 hdirok.sorted) hc]
  rw [suggestion, hnm, Option.getD_some, List.append_assoc, List.cons_append,
    flListFromPath_append_slash hT hg hdir hwu.nodes hwd]
  cases hcf : c.record.isfile
  · rw [if_neg (by simp), flListFromPath_dir hwu hok hwd hne hsl (t := ['/']) (by simp), hchild]
    simp [hcf, List.getLast?_append, List.getLast?_cons]
  · rw [if_pos rfl, List.append_nil, ← List.append_nil nm,
      flListFromPath_dir hwu hok hwd hne hsl (t := []) (by simp), hchild]
    obtain ⟨l, a, rfl⟩ := (List.eq_nil_or_concat nm).resolve_left hne
    simp [List.getLast?_append, List.getLast?_cons] at hsl ⊢
    exact fun h => hsl.2 h.symm

/-- On a tree with I1-I3 and names non-empty and free of `/`, each of the at most 20 suggestions for
a `dir/name` whose `dir` is a directory names a child starting with `name`, ends in `/` exactly for
a directory and resolves back to it. Below 20, every such child is offered. -/
theorem fl_list_suggest_resolves (hT : T.Unfolds H) (hg : T.Good) (hp : T.PlainNames)
    {dir name : List Char} (hname : '/' ∉ name) {w : FlView} (hw : w ∈ T.subtrees)
    (hdir : flListFromPath H T.ptr dir = some (some w.ptr)) (hwd : w.record.isfile = false) :
    ∃ sugs, flListSuggest H T.ptr (dir ++ '/' :: name) = some sugs ∧ sugs.length ≤ 20 ∧
      (∀ s ∈ sugs, ∃ c ∈ w.children, (c.record.name.getD []).take name.length = name ∧
        (s.getLast? = some '/' ↔ c.record.isfile = false) ∧
        flListFromPath H T.ptr s = some (some c.ptr)) ∧
      (sugs.length < 20 → ∀ c ∈ w.children,
        (c.record.name.getD []).take name.length = name →
        ∃ s ∈ sugs, flListFromPath H T.ptr s = some (some c.ptr)) := by
  have hres := fun c (hc : c ∈ w.children) => suggestion_resolves hT hg hp hw hdir hwd hc
  refine ⟨w.suggestions dir name, by rw [flListSuggest_view hT hg hname hw hdir, if_neg (by
    simp [hwd])], ?_, fun s hs => ?_, fun hlt c hc hpre => ?_⟩
  · simp only [suggestions, List.length_map]
    exact List.length_take_le _ _
  · obtain ⟨c, hcm, rfl⟩ := List.mem_map.1 hs
    obtain ⟨hc, hpre⟩ := List.mem_filter.1 (List.mem_of_mem_take hcm)
    exact ⟨c, hc, by simpa using hpre, (hres c hc).2, (hres c hc).1⟩
  · have hlen : (w.children.filter fun c => (c.record.name.getD []).take name.length = name).length
        ≤ 20 := by
      simp only [suggestions, List.length_map, List.length_take] at hlt; omega
    refine ⟨suggestion dir c, List.mem_map.2 ⟨c, ?_, rfl⟩, (hres c hc).1⟩
    rw [List.take_of_length_le hlen]
    exact List.mem_filter.2 ⟨hc, by simpa using hpre⟩

/-- The suggestions for `/a` at the root of `oneFileShare` resolve back. -/
theorem one_file_share_suggestions_resolve :
    ∃ sugs, flListSuggest oneFileShare oneFileTree.ptr ([] ++ '/' :: "a".toList) = some sugs ∧
      sugs.length ≤ 20 ∧
      (∀ s ∈ sugs, ∃ c ∈ oneFileTree.children,
        (c.record.name.getD []).take "a".toList.length = "a".toList ∧
        (s.getLast? = some '/' ↔ c.record.isfile = false) ∧
        flListFromPath oneFileShare oneFileTree.ptr s = some (some c.ptr)) ∧
      (sugs.length < 20 → ∀ c ∈ oneFileTree.children,
        (c.record.name.getD []).take "a".toList.length = "a".toList →
        ∃ s ∈ sugs, flListFromPath oneFileShare oneFileTree.ptr s = some (some c.ptr)) :=
  fl_list_suggest_resolves oneFileTree_unfolds oneFileTree_good
    (by simp [PlainNames, oneFileTree, fileA]) (by decide) (mem_subtrees_self _)
    (flListFromPath_nil _ _) rfl

end Suggest

end Ncdc
