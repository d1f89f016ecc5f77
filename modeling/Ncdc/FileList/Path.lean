import Ncdc.FileList.RoundTrip

/-!
Virtual paths: `fl_list_file`, `fl_list_from_path` and `fl_list_path`. On a tree with I1-I3
whose names are non-empty and hold no `/`, the resolver computes `FlView.resolve`, and the two
functions are inverse on the tree.
-/

namespace Ncdc

open FlView

/-! ### The source -/

/-- `fl_list_file(dir, name)`: the child of `dir` called `name`, or `NULL`, found by comparing
`name` with the child before the position `g_sequence_search` finds. A missing sequence or an
unnamed child is a crash. -/
def flListFile (H : FlHeap) (dir : Nat) (name : List Char) : Option (Option Nat) := do
  let d ← H.nodes dir
  let sub ← d.sub
  let pos ← flSearch H { FlNode.zero with name := some name } sub
  -- `g_sequence_iter_prev` of the begin iterator is the begin iterator
  match sub[pos - 1]? with
  | none => some none
  | some q => do
      let n ← H.nodes q
      let nm ← n.name
      some (if strcmp name nm = .eq then some q else none)

/-- `fl_list_from_path(root, path)`: `some none` is `NULL`, and `none` the failed
`g_assert(root->sub)` or a crash in `fl_list_file`. -/
def flListFromPath (H : FlHeap) (root : Nat) (path : List Char) : Option (Option Nat) :=
  match _hp : path.dropWhile (· == '/') with
  | [] => some (some root)
  | c :: cs => do
      let r ← H.nodes root
      let _ ← r.sub
      -- the first `strcspn(path, "/")` characters
      let name := (c :: cs).takeWhile (· != '/')
      match ← flListFile H root name with
      | none => some none
      | some n =>
          if name.length = (c :: cs).length then some (some n)
          else do
            let m ← H.nodes n
            if m.isfile then some none
            else flListFromPath H n ((c :: cs).drop (name.length + 1))
termination_by path.length
decreasing_by
  have h := (List.dropWhile_suffix (l := path) (· == '/')).length_le
  rw [_hp] at h
  simp only [List.length_drop, List.length_cons] at h ⊢
  omega

/-! ### Steps of the resolver -/

section Resolver

variable (H : FlHeap) (r : Nat)

@[simp] theorem flListFromPath_nil : flListFromPath H r [] = some (some r) := by
  rw [flListFromPath]; rfl

theorem flListFromPath_congr {p q : List Char}
    (h : p.dropWhile (· == '/') = q.dropWhile (· == '/')) :
    flListFromPath H r p = flListFromPath H r q := by
  rw [flListFromPath, flListFromPath]
  split <;> rename_i hp <;> split <;> rename_i hq <;> rw [hp, hq] at h <;> cases h
  all_goals rfl

theorem flListFromPath_slash (p : List Char) : flListFromPath H r ('/' :: p) = flListFromPath H r p :=
  flListFromPath_congr H r (by simp [List.dropWhile_cons])

theorem flListFromPath_name_append {nm t : List Char} (hnm : nm ≠ []) (hsl : '/' ∉ nm)
    (ht : ∀ c ∈ t.head?, c = '/') :
    flListFromPath H r (nm ++ t) = (do
      let rr ← H.nodes r
      let _ ← rr.sub
      match ← flListFile H r nm with
      | none => some none
      | some n =>
          if t = [] then some (some n)
          else do
            let m ← H.nodes n
            if m.isfile then some none else flListFromPath H n t.tail) := by
  have hne : ∀ c ∈ nm, (c != '/') = true := fun c hc => bne_iff_ne.2 fun h => hsl (h ▸ hc)
  have htw : (nm ++ t).takeWhile (· != '/') = nm := by
    rw [List.takeWhile_append_of_pos hne]
    cases t with
    | nil => simp
    | cons c t => simp [ht c rfl]
  obtain ⟨c, cs, rfl⟩ := List.exists_cons_of_ne_nil hnm
  have hc : c ≠ '/' := fun h => hsl (h ▸ List.mem_cons_self c cs)
  rw [flListFromPath]
  split
  · rename_i h; simp [hc] at h
  · rename_i h
    simp only [List.dropWhile_cons, List.cons_append, beq_iff_eq, hc, decide_False, if_false] at h
    rw [← h, ← List.cons_append, htw]
    have hdrop : (c :: cs ++ t).drop ((c :: cs).length + 1) = t.tail := by cases t <;> simp
    simp only [List.length_append, self_eq_add_right, List.length_eq_zero, hdrop]

end Resolver

theorem exists_name_append : ∀ p : List Char,
    ∃ nm t, p = nm ++ t ∧ '/' ∉ nm ∧ ∀ c ∈ t.head?, c = '/'
  | [] => ⟨[], [], rfl, by simp, by simp⟩
  | c :: p => by
      by_cases hc : c = '/'
      · exact ⟨[], c :: p, rfl, by simp, by simp [hc]⟩
      · obtain ⟨nm, t, rfl, hsl, ht⟩ := exists_name_append p
        exact ⟨c :: nm, t, rfl, by simp [hsl, Ne.symm hc], ht⟩

/-! ### Following names down a view -/

namespace FlView

/-- The child of `v` called `nm`. -/
def child? (v : FlView) (nm : List Char) : Option FlView :=
  v.children.find? fun c => c.record.name = some nm

/-- The node reached from `v` by following the children called `ns`, one level a name. -/
def resolve : FlView → List (List Char) → Option FlView
  | v, [] => some v
  | v, nm :: ns => (v.child? nm).bind fun c => c.resolve ns

@[simp] theorem resolve_nil (v : FlView) : v.resolve [] = some v := rfl

@[simp] theorem resolve_cons (v : FlView) (nm : List Char) (ns : List (List Char)) :
    v.resolve (nm :: ns) = (v.child? nm).bind fun c => c.resolve ns := rfl

theorem child?_spec {v c : FlView} {nm : List Char} (h : v.child? nm = some c) :
    c ∈ v.children ∧ c.record.name = some nm :=
  ⟨List.mem_of_find?_eq_some h, by simpa using List.find?_some h⟩

theorem child?_eq_none {v : FlView} {nm : List Char} (h : v.child? nm = none) :
    ∀ c ∈ v.children, c.record.name ≠ some nm := by
  simpa [child?] using h

theorem find?_name_of_pairwise {c : FlView} {nm : List Char} (hn : c.record.name = some nm) :
    ∀ {cs : List FlView}, (names cs).Pairwise (strcmp · · = .lt) → c ∈ cs →
      cs.find? (fun d => d.record.name = some nm) = some c
  | a :: cs, hp, hc => by
      rw [names_cons, List.pairwise_cons] at hp
      rcases List.mem_cons.1 hc with rfl | hc
      · simp [hn]
      · have ha : a.record.name ≠ some nm := fun ha => by
          have := hp.1 _ (List.mem_map_of_mem (fun d => d.record.name.getD []) hc)
          simp [ha, hn] at this
        simp [List.find?_cons, ha, find?_name_of_pairwise hn hp.2 hc]

theorem resolve_append (v : FlView) (N M : List (List Char)) :
    v.resolve (N ++ M) = (v.resolve N).bind fun u => u.resolve M := by
  induction N generalizing v with
  | nil => rfl
  | cons nm N ih => cases h : v.child? nm <;> simp [h, ih]

theorem resolve_mem_subtrees : ∀ {N : List (List Char)} {v w : FlView}, v.resolve N = some w →
    w ∈ v.subtrees
  | [], v, w, h => by cases h; exact mem_subtrees_self v
  | nm :: N, v, w, h => by
      obtain ⟨c, hc, hw⟩ := Option.bind_eq_some.1 h
      exact subtrees_trans (mem_subtrees_of_child (child?_spec hc).1) (resolve_mem_subtrees hw)

theorem resolve_length : ∀ {N : List (List Char)} {v w : FlView}, v.resolve N = some w →
    N.length + w.subtrees.length ≤ v.subtrees.length
  | [], v, w, h => by cases h; simp
  | nm :: N, node p n cs, w, h => by
      obtain ⟨c, hc, hw⟩ := Option.bind_eq_some.1 h
      have hsub := (List.sublist_flatten_of_mem
        (List.mem_map_of_mem subtrees (child?_spec hc).1)).length_le
      have := resolve_length hw
      simp only [subtrees_node, children_node, List.length_cons, List.flatMap_def] at hsub ⊢
      omega

/-- Every name below the root is non-empty and holds no `/`. -/
def PlainNames (v : FlView) : Prop :=
  ∀ u ∈ v.subtrees, ∀ c ∈ u.children, ∀ nm, c.record.name = some nm → nm ≠ [] ∧ '/' ∉ nm

theorem PlainNames.sub {v w : FlView} (h : v.PlainNames) (hw : w ∈ v.subtrees) : w.PlainNames :=
  fun u hu => h u (subtrees_trans hw hu)

theorem PlainNames.child? {v c : FlView} {nm : List Char} (h : v.PlainNames)
    (hc : v.child? nm = some c) : nm ≠ [] ∧ '/' ∉ nm :=
  h v (mem_subtrees_self v) c (child?_spec hc).1 nm (child?_spec hc).2

end FlView

theorem FlView.isfile_false_of_child {H : FlHeap} {u c : FlView} (hv : u.Unfolds H)
    (hok : NodeOk u) (hc : c ∈ u.children) : u.record.isfile = false := by
  cases hf : u.record.isfile
  · rfl
  · rw [children_eq_nil_of_file hv hok hf] at hc; cases hc

theorem FlView.exists_resolve {H : FlHeap} : ∀ {v : FlView}, v.Unfolds H → v.Good →
    ∀ w ∈ v.subtrees, ∃ N, v.resolve N = some w := by
  intro v
  induction v using FlView.induct with
  | node p n cs ih =>
      intro hv hg w hw
      simp only [subtrees_node, List.mem_cons, List.mem_flatMap] at hw
      rcases hw with rfl | ⟨c, hc, hw⟩
      · exact ⟨[], rfl⟩
      · have hok := hg.nodes _ (mem_subtrees_self _)
        have hdir := (hok.dir (isfile_false_of_child hv hok hc)).2
        obtain ⟨nm, hnm⟩ := Option.isSome_iff_exists.1 (hdir.named c hc)
        have hcv : c ∈ (node p n cs).subtrees := mem_subtrees_of_child hc
        obtain ⟨N, hN⟩ := ih c hc (hv.sub hcv) (hg.sub hcv) w hw
        refine ⟨nm :: N, ?_⟩
        rw [resolve_cons, child?,
          find?_name_of_pairwise hnm (List.chain'_iff_pairwise.1 hdir.sorted) hc]
        exact hN

/-! ### Path strings -/

/-- The components of a path: the runs between its separators, empty ones left out. -/
def pathComponents (p : List Char) : List (List Char) :=
  (p.splitOn '/').filter fun s => !s.isEmpty

/-- `p` with repeated and trailing separators removed and a single leading `/`. -/
def normalisedPath (p : List Char) : List Char := '/' :: ['/'].intercalate (pathComponents p)

example : normalisedPath "//d//a.mp3/".toList = "/d/a.mp3".toList := by decide

@[simp] theorem pathComponents_nil : pathComponents [] = [] := rfl

@[simp] theorem pathComponents_slash (p : List Char) :
    pathComponents ('/' :: p) = pathComponents p := by
  simp [pathComponents, List.splitOn, List.splitOnP_cons]

theorem pathComponents_name {nm : List Char} (hnm : nm ≠ []) (hsl : '/' ∉ nm) :
    pathComponents nm = [nm] := by
  rw [pathComponents, List.splitOn, List.splitOnP_eq_single _ _ fun c hc h => hsl (by
    simpa using (beq_iff_eq.1 h) ▸ hc)]
  simp [hnm]

theorem pathComponents_name_slash {nm : List Char} (hnm : nm ≠ []) (hsl : '/' ∉ nm)
    (rest : List Char) : pathComponents (nm ++ '/' :: rest) = nm :: pathComponents rest := by
  rw [pathComponents, List.splitOn, List.splitOnP_first (· == '/') _ (fun c hc h => hsl (by
    simpa using (beq_iff_eq.1 h) ▸ hc)) _ (beq_self_eq_true '/')]
  simp [hnm, pathComponents, List.splitOn]

theorem intercalate_slash_cons (nm b : List Char) (N : List (List Char)) :
    ['/'].intercalate (nm :: b :: N) = nm ++ '/' :: ['/'].intercalate (b :: N) := by
  simp [List.intercalate, List.intersperse_cons_cons]

theorem intercalate_slash_snoc (N : List (List Char)) (x : List Char) :
    ['/'].intercalate (N ++ [x]) = N.flatMap (· ++ ['/']) ++ x := by
  induction N with
  | nil => simp [List.intercalate]
  | cons a N ih =>
      cases N with
      | nil => simp [List.intercalate, List.intersperse_cons_cons]
      | cons b N => simp_all [List.intercalate, List.intersperse_cons_cons]

/-- A path element with no separator at either end. -/
def Bare (s : List Char) : Prop := s ≠ [] ∧ s.head? ≠ some '/' ∧ s.getLast? ≠ some '/'

theorem bare_of_name {nm : List Char} (hnm : nm ≠ []) (hsl : '/' ∉ nm) : Bare nm :=
  ⟨hnm, fun h => hsl (List.mem_of_mem_head? h), fun h => hsl (List.mem_of_mem_getLast? h)⟩

theorem Bare.name_slash {nm b : List Char} (hb : Bare b) (hnm : nm ≠ []) (hsl : '/' ∉ nm) :
    Bare (nm ++ '/' :: b) := by
  refine ⟨by simp, ?_, ?_⟩
  · rw [List.head?_append_of_ne_nil _ hnm]; exact (bare_of_name hnm hsl).2.1
  · obtain ⟨hne, -, hl⟩ := hb
    obtain ⟨c, cs, rfl⟩ := List.exists_cons_of_ne_nil hne
    simpa [List.getLast?_append] using hl

theorem takeWhile_dropWhile_slash {r : List Char} (h : r.head? ≠ some '/') :
    r.takeWhile (· == '/') = [] ∧ r.dropWhile (· == '/') = r := by
  cases r with
  | nil => simp
  | cons c r => simp_all [List.takeWhile_cons, List.dropWhile_cons]

theorem Bare.trim {s : List Char} (h : Bare s) :
    s.isEmpty = false ∧ s.takeWhile (· == '/') = [] ∧
      (s.reverse.dropWhile (· == '/')).reverse = s ∧ s.reverse.takeWhile (· == '/') = [] := by
  obtain ⟨hne, hh, hl⟩ := h
  have hr := takeWhile_dropWhile_slash (r := s.reverse) (by rwa [List.head?_reverse])
  simp [hne, (takeWhile_dropWhile_slash hh).1, hr.1, hr.2]

theorem gBuildFilename_root {b : List Char} (hb : Bare b) :
    gBuildFilename [['/'], b] = '/' :: b := by
  obtain ⟨h₁, h₂, h₃, h₄⟩ := hb.trim
  simp [gBuildFilename, buildPathStep, h₁, h₂, h₃, h₄]

theorem gBuildFilename_pair {nm b : List Char} (hnm : Bare nm) (hb : Bare b) :
    gBuildFilename [nm, b] = nm ++ '/' :: b := by
  obtain ⟨h₁, h₂, h₃, h₄⟩ := hb.trim
  obtain ⟨g₁, g₂, g₃, g₄⟩ := hnm.trim
  simp [gBuildFilename, buildPathStep, h₁, h₂, h₃, h₄, g₁, g₂, g₃, g₄]

/-! ### The resolver against the view -/

section Resolve

variable {H : FlHeap}

/-- At a directory whose sequence lists children stored under their pointers, named and
strictly ascending, `fl_list_file` finds the child of the name. -/
theorem flListFile_sorted {u : FlView} (hu : H.nodes u.ptr = some u.record)
    (hsub : u.record.sub = some (u.children.map ptr))
    (hkids : ∀ c ∈ u.children, H.nodes c.ptr = some c.record ∧ c.record.name.isSome)
    (hsorted : (names u.children).Chain' fun a b => strcmp a b = .lt) (nm : List Char) :
    flListFile H u.ptr nm = some ((u.child? nm).map ptr) := by
  have hs := flSearch_eq (x := { FlNode.zero with name := some nm }) rfl hkids
  simp only [flListFile, hu, hsub, hs, Option.bind_eq_bind, Option.some_bind]
  cases hc : u.child? nm with
  | some c =>
      obtain ⟨hmem, hname⟩ := child?_spec hc
      obtain ⟨cs₁, cs₂, hcs⟩ := List.append_of_mem hmem
      obtain ⟨hpos, hget⟩ := searchPos_split hsorted hcs hname
      rw [hpos, Nat.add_sub_cancel, hget]
      simp [(hkids c hmem).1, hname]
  | none =>
      split
      · rfl
      · rename_i q hq
        obtain ⟨d, hd, rfl⟩ := List.mem_map.1 (List.getElem?_mem hq)
        obtain ⟨a, ha⟩ := Option.isSome_iff_exists.1 (hkids d hd).2
        have hne : strcmp nm a ≠ .eq := fun e =>
          child?_eq_none hc d hd (by rw [ha, strcmp_eq_iff.1 e])
        simp [(hkids d hd).1, ha, hne]

/-- At a directory the heap holds, `fl_list_file` finds the child of the name. -/
theorem flListFile_view {v : FlView} (hv : v.Unfolds H) (hok : NodeOk v)
    (hd : v.record.isfile = false) (nm : List Char) :
    flListFile H v.ptr nm = some ((v.child? nm).map ptr) := by
  obtain ⟨hsome, hdir⟩ := hok.dir hd
  exact flListFile_sorted hv.nodes (FlView.sub_eq (hv v (mem_subtrees_self v)) hsome)
    (fun d hd => ⟨(hv.sub (mem_subtrees_of_child hd)).nodes, hdir.named d hd⟩) hdir.sorted nm

/-- On a directory whose named children ascend strictly under `strcmp`, `g_sequence_search` stops at
the first child comparing greater, and `fl_list_file` returns the child with the name, or `NULL`
when there is none. -/
theorem fl_list_file_finds_child {u : FlView} (hu : H.nodes u.ptr = some u.record)
    (hsub : u.record.sub = some (u.children.map ptr))
    (hkids : ∀ c ∈ u.children, H.nodes c.ptr = some c.record ∧ c.record.name.isSome)
    (hsorted : (names u.children).Chain' fun a b => strcmp a b = .lt) (nm : List Char) :
    flSearch H { FlNode.zero with name := some nm } (u.children.map ptr) =
        some ((names u.children).findIdx fun a => strcmp a nm = .gt) ∧
      (∀ c ∈ u.children, c.record.name = some nm → flListFile H u.ptr nm = some (some c.ptr)) ∧
      ((∀ c ∈ u.children, c.record.name ≠ some nm) → flListFile H u.ptr nm = some none) := by
  rw [flSearch_eq rfl hkids, searchPos_eq_findIdx, flListFile_sorted hu hsub hkids hsorted]
  refine ⟨rfl, fun c hc hn => ?_, fun h => ?_⟩
  · rw [child?, find?_name_of_pairwise hn (List.chain'_iff_pairwise.1 hsorted) hc]; rfl
  · rw [child?, List.find?_eq_none.2 fun c hc => by simpa using h c hc]; rfl

/-- Looking `a` up under the root of `oneFileShare`. -/
theorem one_file_share_lookup :
    flSearch oneFileShare { FlNode.zero with name := some "a".toList }
        (oneFileTree.children.map ptr) =
        some ((names oneFileTree.children).findIdx fun a => strcmp a "a".toList = .gt) ∧
      (∀ c ∈ oneFileTree.children, c.record.name = some "a".toList →
        flListFile oneFileShare oneFileTree.ptr "a".toList = some (some c.ptr)) ∧
      ((∀ c ∈ oneFileTree.children, c.record.name ≠ some "a".toList) →
        flListFile oneFileShare oneFileTree.ptr "a".toList = some none) :=
  fl_list_file_finds_child (u := oneFileTree) rfl rfl (by simp [oneFileTree, oneFileShare, fileA])
    (by simp [oneFileTree, names]) _

theorem flListFromPath_dir {v : FlView} (hv : v.Unfolds H) (hok : NodeOk v)
    (hd : v.record.isfile = false) {nm t : List Char} (hnm : nm ≠ []) (hsl : '/' ∉ nm)
    (ht : ∀ c ∈ t.head?, c = '/') :
    flListFromPath H v.ptr (nm ++ t) =
      match v.child? nm with
      | none => some none
      | some c =>
          if t = [] then some (some c.ptr)
          else if c.record.isfile then some none else flListFromPath H c.ptr t.tail := by
  obtain ⟨l, hl⟩ := Option.isSome_iff_exists.1 (hok.dir hd).1
  rw [flListFromPath_name_append H v.ptr hnm hsl ht]
  simp only [hv.nodes, hl, flListFile_view hv hok hd, Option.bind_eq_bind, Option.some_bind]
  cases hc : v.child? nm with
  | none => rfl
  | some c => simp [(hv.sub (mem_subtrees_of_child (child?_spec hc).1)).nodes]

/-- Following names in the view, the resolver reaches the same node. -/
theorem flListFromPath_resolve : ∀ (N : List (List Char)) {v w : FlView}, v.Unfolds H →
    v.Good → v.PlainNames → v.resolve N = some w →
      flListFromPath H v.ptr (['/'].intercalate N) = some (some w.ptr)
  | [], v, w, _, _, _, h => by cases h; exact flListFromPath_nil H v.ptr
  | nm :: N, v, w, hv, hg, hp, h => by
      obtain ⟨c, hc, hw⟩ := Option.bind_eq_some.1 h
      obtain ⟨hnm, hsl⟩ := hp.child? hc
      have hok := hg.nodes v (mem_subtrees_self v)
      have hd := isfile_false_of_child hv hok (child?_spec hc).1
      cases N with
      | nil =>
          cases hw
          simpa [hc, List.intercalate] using
            flListFromPath_dir hv hok hd hnm hsl (t := []) (by simp)
      | cons b N =>
          have hcs : c ∈ v.subtrees := mem_subtrees_of_child (child?_spec hc).1
          obtain ⟨c', hc', -⟩ := Option.bind_eq_some.1 hw
          have hcd := isfile_false_of_child (hv.sub hcs) (hg.nodes c hcs) (child?_spec hc').1
          rw [intercalate_slash_cons, flListFromPath_dir hv hok hd hnm hsl (by simp), hc]
          simpa [hcd] using
            flListFromPath_resolve (b :: N) (hv.sub hcs) (hg.sub hcs) (hp.sub hcs) hw

/-- What the resolver returns, a node, is the node the path's components reach. -/
theorem resolve_of_flListFromPath {v : FlView} {p : List Char} {x : Nat} (hv : v.Unfolds H)
    (hg : v.Good) (h : flListFromPath H v.ptr p = some (some x)) :
    ∃ w, v.resolve (pathComponents p) = some w ∧ x = w.ptr := by
  obtain ⟨nm, t, rfl, hsl, ht⟩ := exists_name_append p
  rcases nm with _ | ⟨c, nm⟩
  · -- no name before the end or the next separator
    cases t with
    | nil => simp at h; exact ⟨v, rfl, h.symm⟩
    | cons s rest =>
        obtain rfl : s = '/' := ht s rfl
        rw [List.nil_append, flListFromPath_slash] at h
        rw [List.nil_append, pathComponents_slash]
        exact resolve_of_flListFromPath hv hg h
  · have hok := hg.nodes v (mem_subtrees_self v)
    cases hd : v.record.isfile
    · rw [flListFromPath_dir hv hok hd (List.cons_ne_nil c nm) hsl ht] at h
      cases hc : v.child? (c :: nm) with
      | none => simp [hc] at h
      | some d =>
          have hds : d ∈ v.subtrees := mem_subtrees_of_child (child?_spec hc).1
          rw [hc] at h
          cases t with
          | nil =>
              refine ⟨d, ?_, by simpa [eq_comm] using h⟩
              rw [List.append_nil, pathComponents_name (List.cons_ne_nil c nm) hsl]
              simp [hc]
          | cons s rest =>
              obtain rfl : s = '/' := ht s rfl
              simp only [List.cons_ne_nil, if_false, List.tail_cons] at h
              split at h
              · cases h
              · obtain ⟨w, hw, rfl⟩ := resolve_of_flListFromPath (hv.sub hds) (hg.sub hds) h
                rw [pathComponents_name_slash (List.cons_ne_nil c nm) hsl]
                exact ⟨w, by simp [hc, hw], rfl⟩
    · -- a file has no sequence: the `g_assert` fails
      unfold NodeOk at hok
      rw [if_pos hd] at hok
      rw [flListFromPath_name_append H v.ptr (List.cons_ne_nil c nm) hsl ht] at h
      simp [hv.nodes, hok.1] at h
termination_by p.length

end Resolve

/-! ### Paths against the view -/

theorem resolve_snoc {H : FlHeap} {T : FlView} (hT : T.Unfolds H) (hp : T.PlainNames)
    {N : List (List Char)} {nm : List Char} {w : FlView} (hw : T.resolve (N ++ [nm]) = some w) :
    ∃ u, T.resolve N = some u ∧ H.nodes w.ptr = some w.record ∧
      w.record.parent = some u.ptr ∧ w.record.name = some nm ∧ nm ≠ [] ∧ '/' ∉ nm := by
  rw [resolve_append] at hw
  obtain ⟨u, hu, hw⟩ := Option.bind_eq_some.1 hw
  replace hw : u.child? nm = some w := by simpa using hw
  have huT := resolve_mem_subtrees hu
  obtain ⟨hmem, hname⟩ := child?_spec hw
  exact ⟨u, hu, (hT.sub (subtrees_trans huT (mem_subtrees_of_child hmem))).nodes,
    (hT u huT).2.2 w hmem, hname, (hp.sub huT).child? hw⟩

section PathOf

variable {H : FlHeap} {T : FlView} (hT : T.Unfolds H) (hroot : T.record.parent = none)
  (hp : T.PlainNames)
include hT hroot hp

theorem flListPathUp_resolve (N : List (List Char)) {w : FlView} (hw : T.resolve N = some w)
    (fuel : Nat) (hf : N.length < fuel) (path : List Char) (hb : Bare path) :
    flListPathUp H fuel path w.ptr = some ('/' :: (N.flatMap (· ++ ['/']) ++ path)) := by
  induction N using List.reverseRecOn generalizing w fuel path with
  | nil =>
      cases hw
      obtain ⟨f, rfl⟩ : ∃ f, fuel = f + 1 := ⟨fuel - 1, by simp at hf; omega⟩
      simp [flListPathUp, hT.nodes, hroot, gBuildFilename_root hb]
  | append_singleton N nm ih =>
      obtain ⟨u, hu, hwn, hpar, hname, hnm, hsl⟩ := resolve_snoc hT hp hw
      obtain ⟨f, rfl⟩ : ∃ f, fuel = f + 1 := ⟨fuel - 1, by simp at hf; omega⟩
      simp only [flListPathUp, hwn, hpar, hname, Option.some_bind, Option.bind_eq_bind]
      rw [gBuildFilename_pair (bare_of_name hnm hsl) hb,
        ih hu f (by simp at hf; omega) _ (hb.name_slash hnm hsl)]
      simp

/-- The path of the node that the names `N` reach is `/` and the names joined by `/`. -/
theorem flListPath_resolve (hnext : T.subtrees.length ≤ H.next) {N : List (List Char)}
    {w : FlView} (hw : T.resolve N = some w) :
    flListPath H w.ptr = some ('/' :: ['/'].intercalate N) := by
  have hlen := resolve_length hw
  have hpos := List.length_pos_of_mem (mem_subtrees_self w)
  rcases N.eq_nil_or_concat with rfl | ⟨N, nm, rfl⟩
  · cases hw
    simp [flListPath, hT.nodes, hroot, List.intercalate]
  · rw [List.concat_eq_append] at hw hlen ⊢
    obtain ⟨u, hu, hwn, hpar, hname, hnm, hsl⟩ := resolve_snoc hT hp hw
    simp only [List.length_append, List.length_singleton] at hlen
    simp only [flListPath, hwn, hpar, hname, Option.some_bind, Option.bind_eq_bind]
    rw [flListPathUp_resolve hT hroot hp N hu H.next (by omega) nm (bare_of_name hnm hsl),
      intercalate_slash_snoc]

end PathOf

/-- On a tree with I1-I3 below a detached root, its records below the counter and its names
non-empty and free of `/`: `fl_list_from_path(root, fl_list_path(n))` is `n`, and `fl_list_path` of
the node a path reaches is that path normalised. -/
theorem fl_list_path_round_trip {H : FlHeap} {T : FlView} (hT : T.Unfolds H) (hg : T.Good)
    (hroot : T.record.parent = none) (hnext : ∀ x ∈ T.ptrs, x < H.next) (hp : T.PlainNames) :
    (∀ n ∈ T.subtrees, ∃ path, flListPath H n.ptr = some path ∧
        flListFromPath H T.ptr path = some (some n.ptr)) ∧
      ∀ path x, flListFromPath H T.ptr path = some (some x) →
        flListPath H x = some (normalisedPath path) := by
  have hlen : T.subtrees.length ≤ H.next := by
    simpa [ptrs] using (hg.nodup.subperm fun x hx => List.mem_range.2 (hnext x hx)).length_le
  refine ⟨fun n hn => ?_, fun path x hx => ?_⟩
  · obtain ⟨N, hN⟩ := exists_resolve hT hg n hn
    refine ⟨_, flListPath_resolve hT hroot hp hlen hN, ?_⟩
    rw [flListFromPath_slash]
    exact flListFromPath_resolve N hT hg hp hN
  · obtain ⟨w, hw, rfl⟩ := resolve_of_flListFromPath hT hg hx
    exact flListPath_resolve hT hroot hp hlen hw

/-- The paths of `oneFileShare`: `/` and `/a` resolve back to the root and to `a`. -/
theorem one_file_share_paths :
    (∀ n ∈ oneFileTree.subtrees, ∃ path, flListPath oneFileShare n.ptr = some path ∧
        flListFromPath oneFileShare oneFileTree.ptr path = some (some n.ptr)) ∧
      ∀ path x, flListFromPath oneFileShare oneFileTree.ptr path = some (some x) →
        flListPath oneFileShare x = some (normalisedPath path) :=
  fl_list_path_round_trip oneFileTree_unfolds oneFileTree_good rfl (by decide)
    (by simp [PlainNames, oneFileTree, fileA])

end Ncdc
