import Ncdc.FileList.Graft

/-!
What `fl_list_add`, `fl_list_remove` and `fl_list_free` do to a heap that holds a tree, each
traced against a view: both operations keep I1-I3, and nothing else of the heap changes.
-/

namespace Ncdc

open FlView

/-! ### Freeing -/

/-- The heap with the records at the pointers of `S` freed. -/
def FlHeap.free (H : FlHeap) (S : List Nat) : FlHeap :=
  { H with nodes := fun x => if x ∈ S then none else H.nodes x }

@[simp] theorem FlHeap.free_next (H : FlHeap) (S : List Nat) : (H.free S).next = H.next := rfl

theorem FlHeap.free_nodes_of_not_mem (H : FlHeap) {S : List Nat} {x : Nat} (h : x ∉ S) :
    (H.free S).nodes x = H.nodes x := by
  simp [FlHeap.free, h]

theorem FlHeap.free_nodes_of_mem (H : FlHeap) {S : List Nat} {x : Nat} (h : x ∈ S) :
    (H.free S).nodes x = none := by
  simp [FlHeap.free, h]

theorem FlHeap.free_free (H : FlHeap) (S T : List Nat) : (H.free S).free T = H.free (S ++ T) := by
  simp only [FlHeap.free, List.mem_append]
  congr 1; funext x
  by_cases hS : x ∈ S <;> by_cases hT : x ∈ T <;> simp [hS, hT]

theorem flListFree_view : ∀ {w : FlView} {H : FlHeap} (fuel : Nat), w.Unfolds H → w.ptrs.Nodup →
    w.ptrs.length ≤ fuel → flListFree H fuel w.ptr = some (H.free w.ptrs) := by
  intro w
  induction w using FlView.induct with
  | node x n cs ih =>
      intro H fuel hw hnd hfuel
      obtain ⟨k, rfl⟩ : ∃ k, fuel = k + 1 := ⟨fuel - 1, by simp at hfuel; omega⟩
      obtain ⟨hx, hrest⟩ := List.nodup_cons.1 (ptrs_node x n cs ▸ hnd)
      have hlen : (cs.flatMap ptrs).length ≤ k := by simp only [ptrs_node, List.length_cons] at hfuel; omega
      -- the loop over the children frees each child's records in turn
      have hloop : ∀ ds : List FlView, (∀ d ∈ ds, d ∈ cs) → ∀ H', (∀ d ∈ ds, d.Unfolds H') →
          (ds.flatMap ptrs).Nodup → (ds.flatMap ptrs).length ≤ k →
          (ds.map ptr).foldlM (fun H c => flListFree H k c) H' = some (H'.free (ds.flatMap ptrs)) := by
        intro ds
        induction ds with
        | nil => intro _ H' _ _ _; rfl
        | cons d ds ihd =>
            intro hsub H' hu hn hl
            rw [List.flatMap_cons, List.nodup_append] at hn
            rw [List.flatMap_cons, List.length_append] at hl
            have hd := ih d (hsub d (List.mem_cons_self _ _)) k (hu d (List.mem_cons_self _ _))
              hn.1 (by omega)
            rw [List.map_cons, List.foldlM_cons, hd, Option.bind_eq_bind, Option.some_bind,
              ihd (fun d' h => hsub d' (List.mem_cons_of_mem _ h)) _ (fun d' hd' => ?_) hn.2.1
              (by omega), FlHeap.free_free, List.flatMap_cons]
            refine (hu d' (List.mem_cons_of_mem _ hd')).congr fun y hy => ?_
            exact FlHeap.free_nodes_of_not_mem _ fun h => hn.2.2 h (List.mem_flatMap.2 ⟨d', hd', hy⟩)
      have hloc := hw _ (mem_subtrees_self _)
      simp only [Local, ptr_node, record_node, children_node] at hloc
      simp only [flListFree, hloc.1, hloc.2.1, Option.bind_eq_bind, Option.some_bind, ptr_node,
        hloop cs (fun _ h => h) H (unfolds_node_iff.1 hw).2 hrest hlen]
      congr 1
      simp only [FlHeap.free, ptrs_node, List.mem_cons]
      congr 1; funext y
      by_cases hy : y = x
      · subst hy; simp
      · simp [hy]

/-! ### Finding a child's place -/

instance strcmpLtTrans : IsTrans (List Char) fun a b => strcmp a b = .lt :=
  ⟨fun _ _ _ => strcmp_lt_trans⟩

/-- The position `flSearch` finds for the name `nm` among the names `L`: after each name
that does not compare greater. -/
def searchPos (nm : List Char) (L : List (List Char)) : Nat :=
  (L.takeWhile fun a => decide (strcmp a nm ≠ .gt)).length

theorem searchPos_cons (nm a : List Char) (L : List (List Char)) :
    searchPos nm (a :: L) = if strcmp a nm = .gt then 0 else searchPos nm L + 1 := by
  by_cases h : strcmp a nm = .gt <;> simp [searchPos, List.takeWhile_cons, h]

/-- The position is the first name that compares greater, or the end. -/
theorem searchPos_eq_findIdx (nm : List Char) :
    ∀ L : List (List Char), searchPos nm L = L.findIdx fun a => strcmp a nm = .gt
  | [] => rfl
  | a :: L => by
      rw [searchPos_cons, List.findIdx_cons, searchPos_eq_findIdx nm L]
      by_cases h : strcmp a nm = .gt <;> simp [h]

theorem flSearch_eq {H : FlHeap} {x : FlNode} {nm : List Char} (hx : x.name = some nm) :
    ∀ {ds : List FlView}, (∀ d ∈ ds, H.nodes d.ptr = some d.record ∧ d.record.name.isSome) →
      flSearch H x (ds.map ptr) = some (searchPos nm (names ds))
  | [], _ => rfl
  | d :: ds, h => by
      obtain ⟨hd, hname⟩ := h d (List.mem_cons_self _ _)
      obtain ⟨a, ha⟩ := Option.isSome_iff_exists.1 hname
      have ih := flSearch_eq hx fun d' h' => h d' (List.mem_cons_of_mem _ h')
      simp only [List.map_cons, flSearch, hd, flListCmp, ha, hx, Option.bind_eq_bind,
        Option.some_bind, Option.pure_def, names, Option.getD_some, searchPos_cons, ih,
        Option.map_some']
      split_ifs <;> rfl

theorem pairwise_insert {nm : List Char} : ∀ {L : List (List Char)},
    L.Pairwise (strcmp · · = .lt) → nm ∉ L →
      (L.take (searchPos nm L) ++ nm :: L.drop (searchPos nm L)).Pairwise (strcmp · · = .lt)
  | [], _, _ => List.pairwise_singleton _ _
  | a :: L, hL, hnm => by
      rw [List.pairwise_cons] at hL
      rw [searchPos_cons]
      by_cases hg : strcmp a nm = .gt
      · -- `nm` goes first
        have hna : strcmp nm a = .lt := strcmp_eq_gt_iff.1 hg
        rw [if_pos hg, List.take_zero, List.drop_zero, List.nil_append]
        refine .cons (fun b hb => ?_) (.cons hL.1 hL.2)
        rcases List.mem_cons.1 hb with rfl | hb
        · exact hna
        · exact strcmp_lt_trans hna (hL.1 b hb)
      · -- `nm` goes after `a`
        have hlt : strcmp a nm = .lt := by
          cases h : strcmp a nm
          · rfl
          · exact absurd (strcmp_eq_iff.1 h ▸ List.mem_cons_self _ _) hnm
          · exact absurd h hg
        rw [if_neg hg, List.take_succ_cons, List.drop_succ_cons, List.cons_append]
        refine .cons (fun b hb => ?_)
          (pairwise_insert hL.2 fun h => hnm (List.mem_cons_of_mem _ h))
        simp only [List.mem_append, List.mem_cons] at hb
        rcases hb with hb | rfl | hb
        · exact hL.1 b (List.mem_of_mem_take hb)
        · exact hlt
        · exact hL.1 b (List.mem_of_mem_drop hb)

theorem searchPos_of_mem {nm : List Char} : ∀ {L₁ L₂ : List (List Char)},
    (L₁ ++ nm :: L₂).Pairwise (strcmp · · = .lt) → searchPos nm (L₁ ++ nm :: L₂) = L₁.length + 1
  | [], [], _ => by simp [searchPos_cons, searchPos]
  | [], b :: L₂, h => by
      have hb : strcmp nm b = .lt := List.rel_of_pairwise_cons h (List.mem_cons_self _ _)
      simp [searchPos_cons, strcmp_eq_gt_iff.2 hb]
  | a :: L₁, L₂, h => by
      rw [List.cons_append, List.pairwise_cons] at h
      have hlt : strcmp a nm = .lt := h.1 nm (by simp)
      rw [List.cons_append, searchPos_cons, if_neg (by simp [hlt]), searchPos_of_mem h.2,
        List.length_cons]

/-- At a directory with I1, the search for a child's name ends just after that child. -/
theorem searchPos_split {u d : FlView} {ds₁ ds₂ : List FlView} {nm : List Char}
    (hsorted : (names u.children).Chain' fun a b => strcmp a b = .lt)
    (hsplit : u.children = ds₁ ++ d :: ds₂) (hnm : d.record.name = some nm) :
    searchPos nm (names u.children) = ds₁.length + 1 ∧
      (u.children.map ptr)[ds₁.length]? = some d.ptr := by
  replace hsorted := List.chain'_iff_pairwise.1 hsorted
  rw [hsplit, names_append, names_cons, hnm, Option.getD_some] at hsorted ⊢
  refine ⟨by rw [searchPos_of_mem hsorted]; simp [names], ?_⟩
  rw [List.map_append, List.map_cons, List.getElem?_append_right (by simp)]
  simp

/-! ### Adding -/

theorem FlView.sub_eq {H : FlHeap} {u : FlView} (hloc : Local H u) (hsome : u.record.sub.isSome) :
    u.record.sub = some (u.children.map ptr) := by
  obtain ⟨l, hl⟩ := Option.isSome_iff_exists.1 hsome
  have := hloc.2.1
  rw [hl, Option.getD_some] at this
  rw [hl, this]

/-- A node with its `parent` field changed, as `fl_list_add` links it. -/
def FlView.reparent (c : FlView) (q : Option Nat) : FlView :=
  node c.ptr { c.record with parent := q } c.children

@[simp] theorem FlView.ptrs_reparent (c : FlView) (q : Option Nat) :
    (c.reparent q).ptrs = c.ptrs := by
  cases c; simp [reparent]

theorem FlView.mem_subtrees_reparent {c y : FlView} {q : Option Nat}
    (h : y ∈ (c.reparent q).subtrees) : y = c.reparent q ∨ y ∈ c.subtrees := by
  cases c
  simp only [reparent, subtrees_node, List.mem_cons, ptr_node, record_node, children_node] at h ⊢
  tauto

theorem FlView.nodeOk_reparent {c : FlView} {q : Option Nat} : NodeOk (c.reparent q) ↔ NodeOk c := by
  cases c with
  | node x n cs =>
      unfold NodeOk reparent
      simp only [ptr_node, record_node, children_node]
      by_cases hf : n.isfile = true
      · rw [if_pos hf, if_pos hf]
      · rw [if_neg hf, if_neg hf]
        exact ⟨fun h => ⟨h.1, h.2.of_record rfl rfl⟩, fun h => ⟨h.1, h.2.of_record rfl rfl⟩⟩

theorem FlView.Unfolds.reparent {H H' : FlHeap} {c : FlView} (hc : c.Unfolds H)
    (hnd : c.ptrs.Nodup) {q : Option Nat} (hroot : H'.nodes c.ptr = some { c.record with parent := q })
    (he : ∀ y ∈ c.ptrs, y ≠ c.ptr → H'.nodes y = H.nodes y) : (c.reparent q).Unfolds H' := by
  cases c with
  | node x n cs =>
      obtain ⟨hx, -⟩ := List.nodup_cons.1 (ptrs_node x n cs ▸ hnd)
      have hloc := hc _ (mem_subtrees_self _)
      rw [FlView.reparent, unfolds_node_iff]
      refine ⟨⟨hroot, hloc.2.1, hloc.2.2⟩, fun d hd => ((unfolds_node_iff.1 hc).2 d hd).congr
        fun y hy => he y (ptrs_subset_of_child hd hy) fun h => hx ?_⟩
      exact (show y = x from h) ▸ List.mem_flatMap.2 ⟨d, hd, hy⟩

theorem FlView.countsTth_eq {c : FlView} (h : NodeOk c) :
    c.record.countsTth = (!c.record.isfile || decide (c.record.hastth = 1)) := by
  unfold NodeOk at h
  unfold FlNode.countsTth
  split_ifs at h with hf
  · rcases h.2.1 with h0 | h1 <;> simp [hf, *]
  · simp [hf]

/-- Where `fl_list_add(u, c)` puts `c` among `u`'s children. -/
def addPos (u c : FlView) : Nat := searchPos (c.record.name.getD []) (names u.children)

/-- The directory `u` after `fl_list_add(u, c)`: `c` linked at its place, counted in
`hastth`, and its size added. -/
def addChild (u c : FlView) : FlView :=
  node u.ptr
    { u.record with
      sub := some ((u.children.map ptr).take (addPos u c) ++ c.ptr ::
        (u.children.map ptr).drop (addPos u c))
      hastth := if c.record.countsTth then u.record.hastth + 1 else u.record.hastth
      size := (u.record.size + c.record.size) % 2 ^ 64 }
    (u.children.take (addPos u c) ++ c.reparent (some u.ptr) :: u.children.drop (addPos u c))

/-- The tree `v` after `fl_list_add(u, c)`: `u` replaced, and `c`'s size added to every
ancestor. -/
def FlView.add (v u c : FlView) : FlView :=
  v.graft u.ptr (addChild u c) fun x => (x + c.record.size) % 2 ^ 64

@[simp] theorem FlView.ptr_add (v u c : FlView) : (v.add u c).ptr = v.ptr :=
  ptr_graft (w := addChild u c) rfl v

theorem addChild_good {u c : FlView} {nm : List Char} (hu : u.Good)
    (hudir : u.record.isfile = false) (hc : c.Good) (hdis : ∀ x ∈ c.ptrs, x ∉ u.ptrs)
    (hname : c.record.name = some nm) (hfresh : nm ∉ names u.children) : (addChild u c).Good := by
  cases u with
  | node p n ds =>
  obtain ⟨-, hdir⟩ := (hu.nodes _ (mem_subtrees_self _)).dir hudir
  simp only [record_node, children_node] at hdir hudir hfresh
  have hk : addPos (node p n ds) c = searchPos nm (names ds) := by simp [addPos, hname]
  obtain ⟨hp, hnd⟩ := List.nodup_cons.1 (ptrs_node p n ds ▸ hu.nodup)
  have hsplit : ds.flatMap ptrs = (ds.take (addPos (node p n ds) c)).flatMap ptrs ++
      (ds.drop (addPos (node p n ds) c)).flatMap ptrs := by
    rw [← List.flatMap_append, List.take_append_drop]
  constructor
  · -- no pointer twice: `c`'s pointers are new
    simp only [addChild, ptrs_node, children_node, ptr_node, List.flatMap_append,
      List.flatMap_cons, ptrs_reparent]
    rw [hsplit] at hp hnd
    refine List.nodup_cons.2 ⟨?_, ?_⟩
    · simp only [List.mem_append, not_or] at hp ⊢
      exact ⟨hp.1, fun h => hdis p h (ptr_mem_ptrs (node p n ds)), hp.2⟩
    · rw [← List.append_assoc, nodup_middle_iff]
      refine ⟨hnd, hc.nodup, fun x hx hxc => hdis x hxc ?_⟩
      rw [ptrs_node, hsplit]; exact List.mem_cons_of_mem _ hx
  · intro y hy
    simp only [addChild, subtrees_node, List.mem_cons, List.mem_flatMap, List.mem_append,
      children_node, ptr_node, record_node] at hy
    rcases hy with rfl | ⟨d, hd | rfl | hd, hyd⟩
    · -- the directory itself
      refine nodeOk_of_dir hudir ⟨rfl, ?_⟩
      simp only [record_node, children_node]
      have hsum := List.sum_take_add_sum_drop (ds.map (·.record.size)) (addPos (node p n ds) c)
      have hcount : (ds.take (addPos (node p n ds) c)).countP
            (fun c => !c.record.isfile || decide (c.record.hastth = 1)) +
          (ds.drop (addPos (node p n ds) c)).countP
            (fun c => !c.record.isfile || decide (c.record.hastth = 1)) =
          ds.countP fun c => !c.record.isfile || decide (c.record.hastth = 1) := by
        rw [← List.countP_append, List.take_append_drop]
      refine ⟨fun d hd => ?_, ?_, ?_, ?_⟩
      · simp only [List.mem_append, List.mem_cons] at hd
        rcases hd with hd | rfl | hd
        · exact hdir.named d (List.mem_of_mem_take hd)
        · simp [reparent, hname]
        · exact hdir.named d (List.mem_of_mem_drop hd)
      · -- I1: the new name goes where the search put it
        have : names (ds.take (addPos (node p n ds) c) ++ c.reparent (some p) ::
            ds.drop (addPos (node p n ds) c)) =
            (names ds).take (searchPos nm (names ds)) ++ nm ::
              (names ds).drop (searchPos nm (names ds)) := by
          simp [names, List.map_take, List.map_drop, reparent, hname, hk]
        rw [this, List.chain'_iff_pairwise]
        exact pairwise_insert (List.chain'_iff_pairwise.1 hdir.sorted) hfresh
      · -- I2
        simp only [List.map_append, List.map_cons, List.sum_append, List.sum_cons,
          List.map_take, List.map_drop]
        rw [hdir.size]
        simp only [reparent, record_node]
        omega
      · -- I3
        rw [countsTth_eq (hc.nodes c (mem_subtrees_self c))]
        simp only [List.countP_append, List.countP_cons, reparent, record_node]
        rw [hdir.hastth, ← hcount]
        split_ifs <;> push_cast <;> omega
    · exact hu.nodes y (subtrees_trans (subtrees_subset_of_mem (List.mem_of_mem_take hd)
        (mem_subtrees_self d)) hyd)
    · rcases mem_subtrees_reparent hyd with rfl | hyc
      · exact nodeOk_reparent.2 (hc.nodes c (mem_subtrees_self c))
      · exact hc.nodes y hyc
    · exact hu.nodes y (subtrees_trans (subtrees_subset_of_mem (List.mem_of_mem_drop hd)
        (mem_subtrees_self d)) hyd)

theorem mem_ptrs_addChild {u c : FlView} {x : Nat} (h : x ∈ (addChild u c).ptrs) :
    x ∈ u.ptrs ∨ x ∈ c.ptrs := by
  cases u with
  | node p n ds =>
      simp only [addChild, ptrs_node, List.mem_cons, List.flatMap_append, List.flatMap_cons,
        ptrs_reparent, List.mem_append, List.mem_flatMap, ptr_node, children_node] at h ⊢
      rcases h with h | ⟨d, hd, hx⟩ | h | ⟨d, hd, hx⟩
      · exact .inl (.inl h)
      · exact .inl (.inr ⟨d, List.mem_of_mem_take hd, hx⟩)
      · exact .inr h
      · exact .inl (.inr ⟨d, List.mem_of_mem_drop hd, hx⟩)

theorem FlView.rootChain {H : FlHeap} {v : FlView} (hv : v.Unfolds H) (hnd : v.ptrs.Nodup)
    (hroot : v.record.parent = none) {p : Nat} (hp : p ∈ v.ptrs) :
    ∃ S, (∀ y ∈ v.subtrees, y.ptr ∈ S ↔ p ∈ y.ptrs) ∧ S.Nodup ∧ S ⊆ v.ptrs ∧
      H.UpChain (some p) S := by
  obtain ⟨S, hS, hSn, hch⟩ := upChain hv hnd hp (T := []) (hroot ▸ .top)
  refine ⟨S, fun y hy => ?_, hSn, fun x hx => ((hS x).1 hx).mem, by simpa using hch⟩
  rw [hS]
  constructor
  · rintro ⟨z, hz, hzy, hpz⟩; rwa [← eq_of_ptr_eq hnd hz hy hzy]
  · exact fun h => ⟨y, hy, rfl, h⟩

theorem child_ptrs_off_chain {v u d : FlView} {S : List Nat}
    (hS : ∀ y ∈ v.subtrees, y.ptr ∈ S ↔ u.ptr ∈ y.ptrs) (hu : u ∈ v.subtrees)
    (hund : u.ptrs.Nodup) (hd : d ∈ u.children) : ∀ y ∈ d.ptrs, y ∉ S ∧ y ≠ u.ptr := by
  have hud : u.ptr ∉ d.ptrs := ptr_not_mem_child hund hd
  have hdv : d ∈ v.subtrees := subtrees_trans hu (mem_subtrees_of_child hd)
  intro y hy
  obtain ⟨z, hz, rfl⟩ := List.mem_map.1 hy
  exact ⟨fun h => hud (ptrs_subset_of_mem hz ((hS z (subtrees_trans hdv hz)).1 h)),
    fun h => hud (h ▸ hy)⟩

theorem flWalkSize_rootChain {H H' : FlHeap} {v : FlView} {p : Nat} {S : List Nat}
    (f : Nat → Nat) (hch : H.UpChain (some p) S) (hSn : S.Nodup) (hSv : S ⊆ v.ptrs) {fuel : Nat}
    (hfuel : v.ptrs.length ≤ fuel)
    (he : ∀ x ∈ S, (H'.nodes x).map FlNode.parent = (H.nodes x).map FlNode.parent) :
    flWalkSize f H' fuel (some p) = some (H'.mapSizes f S) := by
  simpa using flWalkSize_upChain f (hch.congr he) hSn (T := []) fuel (by simp)
    (le_trans (hSn.subperm hSv).length_le hfuel)

theorem graft_parent_none {v u w : FlView} {f : Nat → Nat} (hnd : v.ptrs.Nodup)
    (hu : u ∈ v.subtrees) (hroot : v.record.parent = none)
    (hw : w.record.parent = u.record.parent) : (v.graft u.ptr w f).record.parent = none := by
  rw [parent_graft fun h => ?_, hroot]
  rw [← eq_of_ptr_eq hnd hu (mem_subtrees_self v) h.symm]
  exact hw

section Add

variable {H : FlHeap} {v u c : FlView} {nm : List Char}
  (hv : v.Unfolds H) (hg : v.Good) (hroot : v.record.parent = none)
  (hu : u ∈ v.subtrees) (hudir : u.record.isfile = false)
  (hc : c.Unfolds H) (hcg : c.Good) (hdis : ∀ x ∈ c.ptrs, x ∉ v.ptrs)
  (hname : c.record.name = some nm) (hfresh : nm ∉ names u.children)
  (hfuel : v.ptrs.length ≤ H.next)
include hv hg hroot hu hudir hc hcg hdis hname hfresh hfuel

theorem flListAdd_view :
    ∃ H', flListAdd H (some u.ptr) c.ptr = some H' ∧ H'.next = H.next ∧
      (∀ x, x ∉ v.ptrs → x ∉ c.ptrs → H'.nodes x = H.nodes x) ∧
      (v.add u c).Unfolds H' ∧ (v.add u c).Good ∧ (v.add u c).record.parent = none := by
  have hup : u.ptr ∈ v.ptrs := ptr_mem_of_mem_subtrees hu
  have hcu : c.ptr ≠ u.ptr := fun h => hdis _ (ptr_mem_ptrs c) (h ▸ hup)
  have hloc := hv u hu
  have hund : u.ptrs.Nodup := (hg.sub hu).nodup
  obtain ⟨hsome, hdir⟩ := (hg.nodes u hu).dir hudir
  have husub : u.record.sub = some (u.children.map ptr) := sub_eq hloc hsome
  obtain ⟨S, hS, hSn, hSv, hch⟩ := rootChain hv hg.nodup hroot hup
  have huS : u.ptr ∈ S := (hS u hu).2 (ptr_mem_ptrs u)
  -- the heap `fl_list_add` hands to the size loop
  let c' : FlNode := { c.record with parent := some u.ptr }
  let p2 : FlNode :=
    { u.record with
      sub := some ((u.children.map ptr).take (addPos u c) ++ c.ptr ::
        (u.children.map ptr).drop (addPos u c))
      hastth := if c'.countsTth then u.record.hastth + 1 else u.record.hastth }
  let H2 := (H.set c.ptr c').set u.ptr p2
  let f := fun x => (x + c.record.size) % 2 ^ 64
  have hH2 : ∀ y, y ≠ u.ptr → y ≠ c.ptr → H2.nodes y = H.nodes y := fun y h1 h2 => by
    simp [H2, h1, h2]
  have hHS : ∀ y, y ∉ S → y ≠ u.ptr → y ≠ c.ptr → (H2.mapSizes f S).nodes y = H.nodes y :=
    fun y h1 h2 h3 => by rw [FlHeap.mapSizes_nodes_of_not_mem _ _ h1, hH2 y h2 h3]
  have hnotc : ∀ y ∈ v.ptrs, y ≠ c.ptr := fun y hy h => hdis _ (ptr_mem_ptrs c) (h ▸ hy)
  have hsearch : flSearch (H.set c.ptr c') c' (u.children.map ptr) = some (addPos u c) := by
    rw [addPos, hname, Option.getD_some]
    refine flSearch_eq (show c'.name = some nm from hname) fun d hd => ⟨?_, hdir.named d hd⟩
    have hdv : d ∈ v.subtrees := subtrees_trans hu (mem_subtrees_of_child hd)
    rw [FlHeap.set_nodes_ne _ _ (hnotc _ (ptr_mem_of_mem_subtrees hdv))]
    exact (hv.sub hdv).nodes
  have hwalk : flWalkSize f H2 H2.next (some u.ptr) = some (H2.mapSizes f S) :=
    flWalkSize_rootChain f hch hSn hSv hfuel fun x hx => by
      by_cases hxu : x = u.ptr
      · subst hxu; simp [H2, hloc.1]
      · rw [hH2 x hxu (hnotc x (hSv hx))]
  refine ⟨H2.mapSizes f S, ?_, rfl, fun x hxv hxc => hHS x (fun h => hxv (hSv h))
    (fun h => hxv (h ▸ hup)) (fun h => hxc (h ▸ ptr_mem_ptrs c)), ?_, ?_, ?_⟩
  · simp only [flListAdd, hc.nodes, Option.bind_eq_bind, Option.some_bind,
      FlHeap.set_nodes_ne _ _ hcu.symm, hloc.1, husub, hsearch]
    exact hwalk
  · -- the heap holds the new tree
    refine Unfolds.graft (w := addChild u c) (u := u) (f := f) ?_ rfl rfl hv hg.nodup hu rfl hS fun x hx hxu =>
      FlHeap.mapSizes_nodes_congr f S (hH2 x (fun h => hxu (h ▸ ptr_mem_ptrs u)) (hnotc x hx))
    rw [addChild, unfolds_node_iff]
    refine ⟨⟨?_, ?_, fun d hd => ?_⟩, fun d hd => ?_⟩
    · rw [ptr_node, FlHeap.mapSizes_nodes_of_mem _ _ huS]
      simp only [H2, FlHeap.set_nodes_self, Option.map_some']
      rfl
    · simp [List.map_take, List.map_drop, FlView.reparent]
    · simp only [children_node, List.mem_append, List.mem_cons] at hd
      rcases hd with hd | rfl | hd
      · exact hloc.2.2 d (List.mem_of_mem_take hd)
      · rfl
      · exact hloc.2.2 d (List.mem_of_mem_drop hd)
    · simp only [children_node, List.mem_append, List.mem_cons] at hd
      rcases hd with hd | rfl | hd
      rotate_left
      · refine hc.reparent hcg.nodup ?_ fun y hy hyc => hHS y (fun h => hdis y hy (hSv h))
          (fun h => hdis y hy (h ▸ hup)) hyc
        rw [FlHeap.mapSizes_nodes_of_not_mem _ _ (fun h => hdis _ (ptr_mem_ptrs c) (hSv h))]
        simp [H2, hcu]
      all_goals
        -- an old child of `u`: below `u`, so neither an ancestor nor changed
        have hd' : d ∈ u.children := by
          first | exact List.mem_of_mem_take hd | exact List.mem_of_mem_drop hd
        have hdv : d ∈ v.subtrees := subtrees_trans hu (mem_subtrees_of_child hd')
        refine (hv.sub hdv).congr fun y hy => ?_
        have hoff := child_ptrs_off_chain hS hu hund hd' y hy
        exact hHS _ hoff.1 hoff.2 (hnotc _ (ptrs_subset_of_mem hdv hy))
  · exact Good.graft (δ := c.record.size) (u := u) (addChild_good (hg.sub hu) hudir hcg
      (fun x hx hxu => hdis x hx (ptrs_subset_of_mem hu hxu)) hname hfresh) rfl hudir hudir rfl
      hg hu rfl fun x hx hxv => (mem_ptrs_addChild hx).resolve_right fun h => hdis x h hxv
  · exact graft_parent_none hg.nodup hu hroot rfl

end Add

/-! ### Removing -/

theorem eraseIdx_middle {α : Type} (l₁ : List α) (a : α) (l₂ : List α) :
    (l₁ ++ a :: l₂).eraseIdx l₁.length = l₁ ++ l₂ := by
  rw [List.eraseIdx_append_of_length_le le_rfl, Nat.sub_self, List.eraseIdx_cons_zero]

theorem mem_of_mem_erased_middle {α : Type} {c a : α} {l₁ l₂ : List α} (h : c ∈ l₁ ++ l₂) :
    c ∈ l₁ ++ a :: l₂ :=
  (List.Sublist.append_left (List.sublist_cons_self a l₂) l₁).subset h

theorem eraseIdx_map_middle {α β : Type} (g : α → β) (l₁ : List α) (a : α) (l₂ : List α) :
    ((l₁ ++ a :: l₂).map g).eraseIdx l₁.length = (l₁ ++ l₂).map g := by
  rw [List.map_append, List.map_cons, ← List.length_map l₁ g, eraseIdx_middle, List.map_append]

theorem FlView.size_lt_of_nodeOk {d : FlView} (h : NodeOk d) : d.record.size < 2 ^ 64 := by
  unfold NodeOk at h
  split_ifs at h
  · exact h.2.2
  · rw [h.2.size]; exact Nat.mod_lt _ (Nat.two_pow_pos 64)

/-- The position `fl_list_remove(d)` erases from its parent `u`'s sequence: one before where
the search for `d`'s name stops. -/
def removePos (u d : FlView) : Nat := searchPos (d.record.name.getD []) (names u.children) - 1

/-- The directory `u` after `fl_list_remove(d)` unlinked its child `d`, uncounted it and
subtracted its size. -/
def removeChild (u d : FlView) : FlView :=
  node u.ptr
    { u.record with
      sub := some ((u.children.map ptr).eraseIdx (removePos u d))
      hastth := if d.record.countsTth then u.record.hastth - 1 else u.record.hastth
      size := (u.record.size + (2 ^ 64 - d.record.size % 2 ^ 64)) % 2 ^ 64 }
    (u.children.eraseIdx (removePos u d))

theorem ptrs_removeChild_subset {u d : FlView} : (removeChild u d).ptrs ⊆ u.ptrs := by
  cases u with
  | node p n ds =>
      intro x hx
      simp only [removeChild, ptrs_node, List.mem_cons, List.mem_flatMap, ptr_node,
        children_node] at hx ⊢
      rcases hx with hx | ⟨c, hc, hx⟩
      · exact .inl hx
      · exact .inr ⟨c, (List.eraseIdx_sublist _ _).subset hc, hx⟩

/-- The tree `v` after `fl_list_remove(d)`, for a child `d` of `u`: `u` replaced, and `d`'s
size subtracted from every ancestor. -/
def FlView.remove (v u d : FlView) : FlView :=
  v.graft u.ptr (removeChild u d) fun x => (x + (2 ^ 64 - d.record.size % 2 ^ 64)) % 2 ^ 64

@[simp] theorem FlView.ptr_remove (v u d : FlView) : (v.remove u d).ptr = v.ptr :=
  ptr_graft (w := removeChild u d) rfl v

theorem remove_walk_eq (s : Nat) :
    (fun x => (x + 2 ^ 64 - s % 2 ^ 64) % 2 ^ 64) = fun x => (x + (2 ^ 64 - s % 2 ^ 64)) % 2 ^ 64 :=
  funext fun x => by
    have := Nat.mod_lt s (Nat.two_pow_pos 64)
    congr 1; omega

theorem removeChild_good {u d : FlView} {ds₁ ds₂ : List FlView} (hu : u.Good)
    (hudir : u.record.isfile = false) (hsplit : u.children = ds₁ ++ d :: ds₂)
    (hpos : removePos u d = ds₁.length) : (removeChild u d).Good := by
  cases u with
  | node p n ds =>
  obtain ⟨-, hdir⟩ := (hu.nodes _ (mem_subtrees_self _)).dir hudir
  simp only [record_node, children_node] at hdir hudir hsplit hpos
  subst hsplit
  have hdok : NodeOk d := hu.nodes d (subtrees_subset_of_mem (by simp) (mem_subtrees_self d))
  obtain ⟨hp, hnd⟩ := List.nodup_cons.1 (ptrs_node p n _ ▸ hu.nodup)
  rw [List.flatMap_append, List.flatMap_cons, ← List.append_assoc] at hp hnd
  have hchildren : (node p n (ds₁ ++ d :: ds₂)).children.eraseIdx
      (removePos (node p n (ds₁ ++ d :: ds₂)) d) = ds₁ ++ ds₂ := by
    rw [hpos, children_node, eraseIdx_middle]
  constructor
  · simp only [removeChild, hchildren, ptrs_node, ptr_node, List.flatMap_append]
    refine List.nodup_cons.2 ⟨fun h => hp ?_, (nodup_middle_iff.1 hnd).1⟩
    rcases List.mem_append.1 h with h | h <;> simp [h]
  · intro y hy
    simp only [removeChild, hchildren, subtrees_node, List.mem_cons, List.mem_flatMap,
      ptr_node, record_node] at hy
    rcases hy with rfl | ⟨c, hc, hyc⟩
    · -- the directory itself
      refine nodeOk_of_dir hudir ⟨rfl, ?_⟩
      simp only [record_node, children_node]
      have hs := size_lt_of_nodeOk hdok
      refine ⟨fun c hc => hdir.named c (mem_of_mem_erased_middle hc), ?_, ?_, ?_⟩
      · -- I1: a sublist of ascending names ascends
        rw [List.chain'_iff_pairwise]
        refine (List.chain'_iff_pairwise.1 hdir.sorted).sublist ?_
        simp only [names, List.map_append, List.map_cons]
        exact List.Sublist.append_left (List.sublist_cons_self _ _) _
      · -- I2
        have := hdir.size
        simp only [List.map_append, List.map_cons, List.sum_append, List.sum_cons] at this ⊢
        rw [this]
        omega
      · -- I3
        rw [countsTth_eq hdok, hdir.hastth]
        simp only [List.countP_append, List.countP_cons]
        split_ifs <;> push_cast <;> omega
    · exact hu.nodes y (subtrees_trans (subtrees_subset_of_mem
        (mem_of_mem_erased_middle hc) (mem_subtrees_self c)) hyc)

section Remove

variable {H : FlHeap} {v u d : FlView}
  (hv : v.Unfolds H) (hg : v.Good) (hroot : v.record.parent = none)
  (hu : u ∈ v.subtrees) (hd : d ∈ u.children) (hfuel : v.ptrs.length ≤ H.next)
include hv hg hroot hu hd hfuel

theorem flListRemove_view :
    ∃ H', flListRemove H d.ptr = some H' ∧ H'.next = H.next ∧
      (∀ x, x ∉ v.ptrs → H'.nodes x = H.nodes x) ∧ (∀ x ∈ d.ptrs, H'.nodes x = none) ∧
      (v.remove u d).Unfolds H' ∧ (v.remove u d).Good ∧ (v.remove u d).record.parent = none := by
  have hup : u.ptr ∈ v.ptrs := ptr_mem_of_mem_subtrees hu
  have hloc := hv u hu
  have hund : u.ptrs.Nodup := (hg.sub hu).nodup
  have hdu : d ∈ u.subtrees := mem_subtrees_of_child hd
  have hdv : d ∈ v.subtrees := subtrees_trans hu hdu
  have hud : u.ptr ∉ d.ptrs := ptr_not_mem_child hund hd
  have hudir : u.record.isfile = false := Bool.eq_false_iff.2 fun hf =>
    List.ne_nil_of_mem hd (children_eq_nil_of_file (hv.sub hu) (hg.nodes u hu) hf)
  obtain ⟨hsome, hdir⟩ := (hg.nodes u hu).dir hudir
  have husub : u.record.sub = some (u.children.map ptr) := sub_eq hloc hsome
  obtain ⟨nm, hnm⟩ := Option.isSome_iff_exists.1 (hdir.named d hd)
  have hcnd : (u.children.flatMap ptrs).Nodup := by
    cases u with
    | node x n cs => exact (List.nodup_cons.1 (ptrs_node x n cs ▸ hund)).2
  obtain ⟨ds₁, ds₂, hsplit, hout⟩ := exists_split_of_mem hcnd hd
  obtain ⟨hpos', hidx⟩ := searchPos_split hdir.sorted hsplit hnm
  have hpos : removePos u d = ds₁.length := by rw [removePos, hnm, Option.getD_some, hpos']; rfl
  obtain ⟨S, hS, hSn, hSv, hch⟩ := rootChain hv hg.nodup hroot hup
  have huS : u.ptr ∈ S := (hS u hu).2 (ptr_mem_ptrs u)
  have hdS := child_ptrs_off_chain hS hu hund hd
  -- the heaps `fl_list_remove` goes through
  let p2 : FlNode :=
    { u.record with
      sub := some (u.children.map ptr)
      hastth := if d.record.countsTth then u.record.hastth - 1 else u.record.hastth }
  let f := fun x => (x + (2 ^ 64 - d.record.size % 2 ^ 64)) % 2 ^ 64
  let H3 := (H.set u.ptr p2).mapSizes f S
  let H4 := H3.set u.ptr
    { p2 with size := f p2.size, sub := some ((u.children.map ptr).eraseIdx (removePos u d)) }
  have hH4 : ∀ y, y ∉ S → y ≠ u.ptr → H4.nodes y = H.nodes y := fun y h1 h2 => by
    simp [H4, H3, FlHeap.mapSizes_nodes_of_not_mem _ _ h1, h2]
  have hwalk : flWalkSize f (H.set u.ptr p2) H.next (some u.ptr) = some H3 :=
    flWalkSize_rootChain f hch hSn hSv hfuel fun x hx => by
      by_cases hxu : x = u.ptr
      · subst hxu; simp [p2, hloc.1]
      · rw [FlHeap.set_nodes_ne _ _ hxu]
  have hdlen : d.ptrs.length ≤ H.next :=
    le_trans ((hg.sub hdv).nodup.subperm (ptrs_subset_of_mem hdv)).length_le hfuel
  have hfree : flListFree H4 H.next d.ptr = some (H4.free d.ptrs) :=
    flListFree_view _ ((hv.sub hdv).congr fun y hy => hH4 y (hdS y hy).1 (hdS y hy).2)
      (hg.sub hdv).nodup hdlen
  have hsearch : flSearch H d.record (u.children.map ptr) = some (ds₁.length + 1) := by
    rw [← hpos']
    exact flSearch_eq hnm fun c hc => ⟨(hv.sub (subtrees_trans hu (mem_subtrees_of_child hc))).nodes,
      hdir.named c hc⟩
  have hH' : ∀ y, y ∉ v.ptrs → (H4.free d.ptrs).nodes y = H.nodes y := fun y hy => by
    rw [FlHeap.free_nodes_of_not_mem _ fun h => hy (ptrs_subset_of_mem hdv h),
      hH4 y (fun h => hy (hSv h)) fun h => hy (h ▸ hup)]
  refine ⟨H4.free d.ptrs, ?_, rfl, hH', fun x hx => FlHeap.free_nodes_of_mem _ hx, ?_, ?_, ?_⟩
  · simp only [flListRemove, (hv.sub hdv).nodes, hloc.2.2 d hd, hloc.1, husub, hsearch,
      Option.bind_eq_bind, Option.some_bind, Nat.add_sub_cancel, hidx, if_true,
      FlHeap.set_next]
    rw [remove_walk_eq, hwalk, Option.some_bind, FlHeap.mapSizes_nodes_of_mem _ _ huS,
      FlHeap.set_nodes_self,
      Option.map_some', Option.some_bind, ← hpos]
    exact hfree
  · -- the heap holds the new tree
    refine Unfolds.graft (w := removeChild u d) (u := u) (f := f) ?_ rfl rfl hv hg.nodup hu rfl hS
      fun x hx hxu => ?_
    · rw [removeChild, unfolds_node_iff]
      refine ⟨⟨?_, ?_, fun c hc => ?_⟩, fun c hc => ?_⟩
      · rw [ptr_node, FlHeap.free_nodes_of_not_mem _ hud]
        simp only [H4, FlHeap.set_nodes_self]
        rfl
      · simp only [record_node, children_node, Option.getD_some, hpos, hsplit,
          eraseIdx_map_middle, eraseIdx_middle]
      · simp only [children_node, hpos, hsplit, eraseIdx_middle] at hc
        exact hloc.2.2 c (hsplit ▸ mem_of_mem_erased_middle hc)
      · simp only [hpos, hsplit, eraseIdx_middle] at hc
        have hcu : c ∈ u.children := hsplit ▸ mem_of_mem_erased_middle hc
        refine (hv.sub (subtrees_trans hu (mem_subtrees_of_child hcu))).congr fun y hy => ?_
        have hoff := child_ptrs_off_chain hS hu hund hcu y hy
        rw [FlHeap.free_nodes_of_not_mem _ (hout c hc _ hy)]
        exact hH4 _ hoff.1 hoff.2
    · have hxu' : x ≠ u.ptr := fun h => hxu (h ▸ ptr_mem_ptrs u)
      rw [FlHeap.free_nodes_of_not_mem _ fun h => hxu (ptrs_subset_of_mem hdu h)]
      simp only [H4, H3, FlHeap.set_nodes_ne _ _ hxu']
      exact FlHeap.mapSizes_nodes_congr f S (FlHeap.set_nodes_ne _ _ hxu')
  · exact Good.graft (δ := 2 ^ 64 - d.record.size % 2 ^ 64) (u := u)
      (removeChild_good (hg.sub hu) hudir hsplit hpos) rfl hudir hudir rfl hg hu rfl
      fun x hx _ => ptrs_removeChild_subset hx
  · exact graft_parent_none hg.nodup hu hroot rfl

end Remove

end Ncdc
