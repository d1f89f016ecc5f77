import Ncdc.FileList.Walk
import Mathlib.Algebra.BigOperators.Group.List

/-!
Replacing one node of a view. `FlView.graft p w f v` is `v` with `w` at `p` and `f` applied
to the size of every proper ancestor of `p`: the shape of every change `fl_list_add` and
`fl_list_remove` make.
-/

namespace Ncdc

namespace FlView

mutual
/-- The view with the subtree at `p` replaced by `w` and `f` applied to the size of every
proper ancestor of `p`. -/
def graft : FlView → Nat → FlView → (Nat → Nat) → FlView
  | node x n cs, p, w, f =>
      if x = p then w
      else if p ∈ (node x n cs).ptrs then node x { n with size := f n.size } (graftList cs p w f)
      else node x n cs
/-- `graft` on each view of a list. -/
def graftList : List FlView → Nat → FlView → (Nat → Nat) → List FlView
  | [], _, _, _ => []
  | c :: cs, p, w, f => graft c p w f :: graftList cs p w f
end
section Graft

variable {p : Nat} {w : FlView} {f : Nat → Nat}

theorem graftList_eq (p : Nat) (w : FlView) (f : Nat → Nat) :
    ∀ cs : List FlView, graftList cs p w f = cs.map (·.graft p w f)
  | [] => rfl
  | c :: cs => by rw [graftList, graftList_eq p w f cs, List.map_cons]

theorem graft_node (x : Nat) (n : FlNode) (cs : List FlView) :
    (node x n cs).graft p w f =
      if x = p then w
      else if p ∈ (node x n cs).ptrs then node x { n with size := f n.size } (cs.map (·.graft p w f))
      else node x n cs := by
  rw [graft, graftList_eq]

theorem graft_of_not_mem {v : FlView} (h : p ∉ v.ptrs) : v.graft p w f = v := by
  cases v with
  | node x n cs => rw [graft_node, if_neg (fun hx => h (by simp [hx])), if_neg h]

theorem ptr_graft (hwp : w.ptr = p) (v : FlView) : (v.graft p w f).ptr = v.ptr := by
  cases v with
  | node x n cs => rw [graft_node]; split_ifs with hx <;> simp [hwp, hx]

theorem record_graft {c : FlView} (hp : p ∈ c.ptrs) :
    (c.graft p w f).record =
      if c.ptr = p then w.record else { c.record with size := f c.record.size } := by
  cases c with
  | node x n cs => rw [graft_node, if_pos hp, ptr_node]; split_ifs <;> rfl

theorem eq_of_ptr_eq {v u u' : FlView} (h : v.ptrs.Nodup) (hu : u ∈ v.subtrees)
    (hu' : u' ∈ v.subtrees) (he : u.ptr = u'.ptr) : u = u' :=
  List.inj_on_of_nodup_map h hu hu' he

theorem ptr_mem_of_mem_subtrees {v u : FlView} (hu : u ∈ v.subtrees) : u.ptr ∈ v.ptrs :=
  List.mem_map_of_mem _ hu

theorem ptrs_subset_of_child {x : Nat} {n : FlNode} {cs : List FlView} {d : FlView}
    (hd : d ∈ cs) : d.ptrs ⊆ (node x n cs).ptrs :=
  ptrs_subset_of_mem (subtrees_subset_of_mem hd (mem_subtrees_self d))

theorem nodup_of_child {x : Nat} {n : FlNode} {cs : List FlView} (h : (node x n cs).ptrs.Nodup)
    {d : FlView} (hd : d ∈ cs) : d.ptrs.Nodup :=
  (List.nodup_flatMap.1 (List.nodup_cons.1 (ptrs_node x n cs ▸ h)).2).1 d hd

theorem ptr_not_mem_child {u d : FlView} (h : u.ptrs.Nodup) (hd : d ∈ u.children) :
    u.ptr ∉ d.ptrs := by
  cases u with
  | node x n cs =>
      intro hx
      exact (List.nodup_cons.1 (ptrs_node x n cs ▸ h)).1 (List.mem_flatMap.2 ⟨d, hd, hx⟩)

theorem exists_split_of_mem {cs : List FlView} (h : (cs.flatMap ptrs).Nodup) {d : FlView}
    (hd : d ∈ cs) : ∃ c₁ c₂, cs = c₁ ++ d :: c₂ ∧ ∀ c ∈ c₁ ++ c₂, ∀ y ∈ c.ptrs, y ∉ d.ptrs := by
  obtain ⟨c₁, c₂, rfl⟩ := List.append_of_mem hd
  rw [List.flatMap_append, List.flatMap_cons, List.nodup_append, List.nodup_append] at h
  obtain ⟨-, ⟨-, -, h2⟩, h1⟩ := h
  refine ⟨c₁, c₂, rfl, fun c hc y hy hyd => ?_⟩
  rcases List.mem_append.1 hc with hc | hc
  · exact h1 (List.mem_flatMap.2 ⟨c, hc, hy⟩) (List.mem_append_left _ hyd)
  · exact h2 hyd (List.mem_flatMap.2 ⟨c, hc, hy⟩)

theorem graft_node_of_child {x : Nat} {n : FlNode} {cs : List FlView}
    (hnd : (node x n cs).ptrs.Nodup) {d : FlView} (hd : d ∈ cs) (hp : p ∈ d.ptrs) :
    ∃ c₁ c₂, cs = c₁ ++ d :: c₂ ∧ (∀ c ∈ c₁ ++ c₂, ∀ y ∈ c.ptrs, y ∉ d.ptrs) ∧
      x ∉ d.ptrs ∧
      (node x n cs).graft p w f = node x { n with size := f n.size } (c₁ ++ d.graft p w f :: c₂) := by
  obtain ⟨hx, hrest⟩ := List.nodup_cons.1 (ptrs_node x n cs ▸ hnd)
  obtain ⟨c₁, c₂, rfl, hout⟩ := exists_split_of_mem hrest hd
  have hxd : x ∉ d.ptrs := fun h => hx (List.mem_flatMap.2 ⟨d, hd, h⟩)
  refine ⟨c₁, c₂, rfl, hout, hxd, ?_⟩
  have hkeep : ∀ c ∈ c₁ ++ c₂, c.graft p w f = c := fun c hc => graft_of_not_mem (hout c hc p · hp)
  rw [graft_node, if_neg (fun h : x = p => hxd (h ▸ hp)), if_pos (ptrs_subset_of_child hd hp)]
  simp only [List.map_append, List.map_cons]
  rw [List.map_congr_left (fun c hc => hkeep c (List.mem_append_left _ hc)),
    List.map_congr_left (fun c hc => hkeep c (List.mem_append_right _ hc)), List.map_id',
    List.map_id']

theorem mem_subtrees_node {x : Nat} {n : FlNode} {cs : List FlView} {u : FlView} :
    u ∈ (node x n cs).subtrees ↔ u = node x n cs ∨ ∃ d ∈ cs, u ∈ d.subtrees := by
  simp [List.mem_flatMap]

theorem ptrs_graft :
    ∀ {v u : FlView}, v.ptrs.Nodup → u ∈ v.subtrees → u.ptr = p →
      ∃ l₁ l₂, v.ptrs = l₁ ++ u.ptrs ++ l₂ ∧ (v.graft p w f).ptrs = l₁ ++ w.ptrs ++ l₂ := by
  intro v
  induction v using induct with
  | node x n cs ih =>
      intro u hnd hu hup
      rcases mem_subtrees_node.1 hu with rfl | ⟨d, hd, hud⟩
      · refine ⟨[], [], by simp, ?_⟩
        rw [graft_node, if_pos (show x = p from hup)]; simp
      · have hp : p ∈ d.ptrs := hup ▸ ptr_mem_of_mem_subtrees hud
        obtain ⟨c₁, c₂, rfl, -, -, hg⟩ := graft_node_of_child (w := w) (f := f) hnd hd hp
        obtain ⟨m₁, m₂, h1, h2⟩ :=
          ih d hd (nodup_of_child hnd hd) hud hup
        refine ⟨x :: (c₁.flatMap ptrs ++ m₁), m₂ ++ c₂.flatMap ptrs, ?_, ?_⟩
        · simp [List.flatMap_append, h1]
        · rw [hg]; simp [List.flatMap_append, h2]

theorem nodup_middle_iff {l₁ m l₂ : List Nat} :
    (l₁ ++ m ++ l₂).Nodup ↔ (l₁ ++ l₂).Nodup ∧ m.Nodup ∧ (l₁ ++ l₂).Disjoint m := by
  rw [List.append_assoc, (List.perm_append_comm.append_left l₁).nodup_iff, ← List.append_assoc,
    List.nodup_append]

theorem nodup_graft {v u : FlView} (hnd : v.ptrs.Nodup) (hu : u ∈ v.subtrees)
    (hup : u.ptr = p) (hw : w.ptrs.Nodup) (hdis : ∀ x ∈ w.ptrs, x ∈ v.ptrs → x ∈ u.ptrs) :
    (v.graft p w f).ptrs.Nodup := by
  obtain ⟨l₁, l₂, h1, h2⟩ := ptrs_graft (w := w) (f := f) hnd hu hup
  rw [h1, nodup_middle_iff] at hnd
  rw [h2, nodup_middle_iff]
  refine ⟨hnd.1, hw, fun x hx hxw => hnd.2.2 hx (hdis x hxw ?_)⟩
  rw [h1]
  rcases List.mem_append.1 hx with hx | hx <;> simp [hx]

theorem graft_ptr (v : FlView) : v.graft v.ptr w f = w := by
  cases v; rw [ptr_node, graft_node, if_pos rfl]

theorem graft_self : ∀ {v u : FlView}, v.ptrs.Nodup → u ∈ v.subtrees → v.graft u.ptr u id = v := by
  intro v
  induction v using induct with
  | node x n cs ih =>
      intro u hnd hu
      rcases mem_subtrees_node.1 hu with rfl | ⟨d, hd, hud⟩
      · exact graft_ptr _
      · obtain ⟨c₁, c₂, rfl, -, -, hg⟩ := graft_node_of_child (w := u) (f := id) hnd hd
          (ptr_mem_of_mem_subtrees hud)
        rw [hg, ih d hd (nodup_of_child hnd hd) hud]
        rfl

theorem mem_subtrees_graft : ∀ {v : FlView}, p ∈ v.ptrs → w ∈ (v.graft p w f).subtrees := by
  intro v
  induction v using induct with
  | node x n cs ih =>
      intro hp
      rw [graft_node]
      split_ifs with hx
      · exact mem_subtrees_self w
      · simp only [ptrs_node, List.mem_cons, List.mem_flatMap] at hp
        obtain ⟨c, hc, hpc⟩ := hp.resolve_left fun h => hx h.symm
        exact subtrees_subset_of_mem (List.mem_map_of_mem _ hc) (ih c hc hpc)

theorem graft_graft {A B : FlView} {g : Nat → Nat} {q : Nat} (hq : q ∈ A.ptrs) :
    ∀ {v : FlView}, (q = p ∨ q ∉ v.ptrs) →
      (v.graft p A f).graft q B g = v.graft p (A.graft q B g) (g ∘ f) := by
  intro v
  induction v using induct with
  | node x n cs ih =>
      intro hqv
      have hqc : ∀ c ∈ cs, p ∉ c.ptrs → q ∉ c.ptrs := fun c hc hpc hqc =>
        hqv.elim (fun h => hpc (h ▸ hqc)) fun h => h (ptrs_subset_of_child hc hqc)
      by_cases hx : x = p
      · rw [graft_node, if_pos hx, graft_node, if_pos hx]
      by_cases hp : p ∈ (node x n cs).ptrs
      · have hxq : x ≠ q := by
          rintro rfl
          exact hqv.elim hx fun h => h (by simp)
        have hq' := (mem_subtrees_graft (w := A) (f := f) hp) |> ptrs_subset_of_mem <| hq
        rw [graft_node, if_neg hx, if_pos hp] at hq' ⊢
        rw [graft_node, if_neg hxq, if_pos hq', graft_node, if_neg hx, if_pos hp, List.map_map]
        congr 1
        refine List.map_congr_left fun c hc => ?_
        by_cases hpc : p ∈ c.ptrs
        · exact ih c hc (hqv.imp_right fun h hc' => h (ptrs_subset_of_child hc hc'))
        · simp only [Function.comp_apply, graft_of_not_mem hpc, graft_of_not_mem (hqc c hc hpc)]
      · have hqv' : q ∉ (node x n cs).ptrs := hqv.elim (fun h => h ▸ hp) id
        rw [graft_of_not_mem hp, graft_of_not_mem hqv', graft_of_not_mem hp]

/-! ### What the heap holds after a graft -/

theorem parent_graft {c : FlView} (h : c.ptr = p → w.record.parent = c.record.parent) :
    (c.graft p w f).record.parent = c.record.parent := by
  by_cases hp : p ∈ c.ptrs
  · rw [record_graft hp]; split_ifs with hc
    · exact h hc
    · rfl
  · rw [graft_of_not_mem hp]

theorem Unfolds.graft {H H' : FlHeap} {S : List Nat} {u : FlView} (hw : w.Unfolds H')
    (hwp : w.ptr = p) (hpar : w.record.parent = u.record.parent) :
    ∀ {v : FlView}, v.Unfolds H → v.ptrs.Nodup → u ∈ v.subtrees → u.ptr = p →
      (∀ y ∈ v.subtrees, y.ptr ∈ S ↔ p ∈ y.ptrs) →
      (∀ x ∈ v.ptrs, x ∉ u.ptrs → H'.nodes x = (H.mapSizes f S).nodes x) →
      (v.graft p w f).Unfolds H' := by
  intro v
  induction v using induct with
  | node x n cs ih =>
      intro hv hnd hu hup hS he
      rcases mem_subtrees_node.1 hu with rfl | ⟨d, hd, hud⟩
      · rw [graft_node, if_pos (show x = p from hup)]; exact hw
      have hp : p ∈ d.ptrs := hup ▸ ptr_mem_of_mem_subtrees hud
      have hdnd : d.ptrs.Nodup := nodup_of_child hnd hd
      have hlocal := hv _ (mem_subtrees_self _)
      simp only [Local, ptr_node, record_node, children_node] at hlocal
      obtain ⟨c₁, c₂, rfl, hout, hxd, hg⟩ := graft_node_of_child (w := w) (f := f) hnd hd hp
      have huptrs : u.ptrs ⊆ d.ptrs := ptrs_subset_of_mem hud
      rw [hg, unfolds_node_iff]
      refine ⟨⟨?_, ?_, fun c hc => ?_⟩, fun c hc => ?_⟩
      · -- the node's own record, with its size updated
        have hxS : x ∈ S := (hS _ (mem_subtrees_self _)).2 (ptrs_subset_of_child hd hp)
        rw [ptr_node, he x (ptr_mem_ptrs _) (fun h => hxd (huptrs h)),
          FlHeap.mapSizes_nodes_of_mem _ _ hxS, hlocal.1]
        rfl
      · rw [record_node, hlocal.2.1]; simp [ptr_graft hwp]
      · -- each child still points back to the node
        have hpar' : (d.graft p w f).record.parent = d.record.parent := parent_graft fun hdp => by
          rw [hpar, eq_of_ptr_eq hdnd hud (mem_subtrees_self d) (hup.trans hdp.symm)]
        simp only [children_node, List.mem_append, List.mem_cons] at hc
        rcases hc with hc | hc | hc
        · exact hlocal.2.2 c (by simp [hc])
        · exact hc ▸ hpar'.trans (hlocal.2.2 d (by simp))
        · exact hlocal.2.2 c (by simp [hc])
      · have hchild := (unfolds_node_iff.1 hv).2
        simp only [List.mem_append, List.mem_cons] at hc
        rcases hc with hc | hc | hc
        rotate_left
        · exact hc ▸ ih d (by simp) (hchild d (by simp)) hdnd hud hup
            (fun y hy => hS y (subtrees_subset_of_mem (by simp) hy))
            (fun y hy hyu => he y (ptrs_subset_of_child (by simp) hy) hyu)
        all_goals
          -- a child away from `p`: the heap still holds it as it was
          have hc' : c ∈ c₁ ++ c₂ := by simp [hc]
          refine (hchild c (by simp [hc])).congr fun y hy => ?_
          rw [he y (ptrs_subset_of_child (by simp [hc]) hy) (fun h => hout c hc' y hy (huptrs h))]
          obtain ⟨z, hz, rfl⟩ := List.mem_map.1 hy
          refine FlHeap.mapSizes_nodes_of_not_mem _ _ fun hzS => hout c hc' p ?_ hp
          exact ptrs_subset_of_mem hz ((hS z (subtrees_trans (subtrees_subset_of_mem
            (by simp [hc]) (mem_subtrees_self c)) hz)).1 hzS)

/-! ### I1-I3 after a graft -/

theorem DirOk.replace_child {n : FlNode} {c₁ c₂ : List FlView} {d d' : FlView} {δ : Nat}
    (h : DirOk n (c₁ ++ d :: c₂)) (hname : d'.record.name = d.record.name)
    (hcount : (!d'.record.isfile || decide (d'.record.hastth = 1)) =
      (!d.record.isfile || decide (d.record.hastth = 1)))
    (hsize : d'.record.size = (d.record.size + δ) % 2 ^ 64) :
    DirOk { n with size := (n.size + δ) % 2 ^ 64 } (c₁ ++ d' :: c₂) where
  named c hc := by
    simp only [List.mem_append, List.mem_cons] at hc
    rcases hc with hc | rfl | hc
    · exact h.named c (by simp [hc])
    · exact hname ▸ h.named d (by simp)
    · exact h.named c (by simp [hc])
  sorted := by
    have : names (c₁ ++ d' :: c₂) = names (c₁ ++ d :: c₂) := by simp [names, hname]
    exact this ▸ h.sorted
  size := by
    have := h.size
    simp only [List.map_append, List.map_cons, List.sum_append, List.sum_cons] at this ⊢
    rw [hsize, this]
    omega
  hastth := by rw [h.hastth]; simp [List.countP_append, List.countP_cons, hcount]

theorem nodeOk_replace_child {x : Nat} {n : FlNode} {c₁ c₂ : List FlView} {d d' : FlView}
    {δ : Nat} (h : NodeOk (node x n (c₁ ++ d :: c₂))) (hname : d'.record.name = d.record.name)
    (hcount : (!d'.record.isfile || decide (d'.record.hastth = 1)) =
      (!d.record.isfile || decide (d.record.hastth = 1)))
    (hsize : d'.record.size = (d.record.size + δ) % 2 ^ 64) :
    NodeOk (node x { n with size := (n.size + δ) % 2 ^ 64 } (c₁ ++ d' :: c₂)) := by
  unfold NodeOk at h ⊢
  simp only [record_node, children_node] at h ⊢
  split_ifs at h ⊢
  · exact ⟨h.1, h.2.1, Nat.mod_lt _ (Nat.two_pow_pos 64)⟩
  · exact ⟨h.1, h.2.replace_child hname hcount hsize⟩

section Good

variable {δ : Nat} {u : FlView} (hw : w.Good)
  (hname : w.record.name = u.record.name) (hudir : u.record.isfile = false)
  (hwdir : w.record.isfile = false) (hsize : w.record.size = (u.record.size + δ) % 2 ^ 64)
include hw hname hudir hwdir hsize

theorem nodeOk_graft : ∀ {v : FlView}, v.Good → u ∈ v.subtrees → u.ptr = p →
    ∀ y ∈ (v.graft p w fun x => (x + δ) % 2 ^ 64).subtrees, NodeOk y := by
  intro v
  induction v using induct with
  | node x n cs ih =>
      intro hv hu hup
      rcases mem_subtrees_node.1 hu with rfl | ⟨d, hd, hud⟩
      · rw [graft_node, if_pos (show x = p from hup)]; exact hw.nodes
      have hp : p ∈ d.ptrs := hup ▸ ptr_mem_of_mem_subtrees hud
      have hdnd : d.ptrs.Nodup := nodup_of_child hv.nodup hd
      have htop := hv.nodes _ (mem_subtrees_self _)
      obtain ⟨c₁, c₂, rfl, -, -, hg⟩ :=
        graft_node_of_child (w := w) (f := fun x => (x + δ) % 2 ^ 64) hv.nodup hd hp
      rw [hg]
      intro y hy
      rcases mem_subtrees_node.1 hy with rfl | ⟨c, hc, hyc⟩
      · -- the node itself: one child changed, by `δ`
        rw [← List.singleton_append, ← List.append_assoc] at htop ⊢
        rw [List.append_assoc, List.singleton_append] at htop ⊢
        have hrec := record_graft (w := w) (f := fun x => (x + δ) % 2 ^ 64) hp
        by_cases hdp : d.ptr = p
        · obtain rfl : u = d := eq_of_ptr_eq hdnd hud (mem_subtrees_self d) (hup.trans hdp.symm)
          rw [if_pos hdp] at hrec
          exact nodeOk_replace_child htop (hrec ▸ hname) (by rw [hrec]; simp [hwdir, hudir])
            (hrec ▸ hsize)
        · rw [if_neg hdp] at hrec
          exact nodeOk_replace_child htop (by rw [hrec]) (by rw [hrec]) (by rw [hrec])
      · simp only [List.mem_append, List.mem_cons] at hc
        rcases hc with hc | hc | hc
        · exact hv.nodes y (subtrees_trans (subtrees_subset_of_mem (by simp [hc])
            (mem_subtrees_self c)) hyc)
        · subst hc
          exact ih d (by simp) (hv.sub (subtrees_subset_of_mem (by simp) (mem_subtrees_self d)))
            hud hup y hyc
        · exact hv.nodes y (subtrees_trans (subtrees_subset_of_mem (by simp [hc])
            (mem_subtrees_self c)) hyc)

theorem Good.graft {v : FlView} (hv : v.Good) (hu : u ∈ v.subtrees) (hup : u.ptr = p)
    (hdis : ∀ x ∈ w.ptrs, x ∈ v.ptrs → x ∈ u.ptrs) :
    (v.graft p w fun x => (x + δ) % 2 ^ 64).Good :=
  ⟨nodup_graft hv.nodup hu hup hw.nodup hdis,
    nodeOk_graft hw hname hudir hwdir hsize hv hu hup⟩

end Good

end Graft

end FlView

end Ncdc
