import Ncdc.FileList.Copy

/-!
The file-list tree over whole runs: on every heap reached by `fl_list_add`, `fl_list_remove`
and fresh allocations (`FlReachable`), the records below the root form one view with I1-I3.
-/

namespace Ncdc

open FlView

/-- `x` is in the tree below `root`: reached from it through the sequences. -/
inductive FlHeap.Below (H : FlHeap) (root : Nat) : Nat → Prop
  | root : Below H root root
  | sub {q x : Nat} {n : FlNode} : Below H root q → H.nodes q = some n → x ∈ n.sub.getD [] →
      Below H root x

/-- Following `parent` pointers from `x` reaches `root`. -/
inductive FlHeap.Up (H : FlHeap) (root : Nat) : Nat → Prop
  | root : Up H root root
  | parent {x q : Nat} {n : FlNode} : H.nodes x = some n → n.parent = some q → Up H root q →
      Up H root x

/-- The root `fl_load` and `fl_local` start from: `g_slice_new0` with a new sequence. -/
def FlNode.freshRoot : FlNode := { FlNode.zero with sub := some [] }

/-- The tree below `root` is well formed: the heap holds a view of it with I1-I3, whose
records are exactly those reached from `root`, whose root is detached, and from each of
whose records the parent pointers lead back to `root`. -/
structure FlHeap.TreeOk (H : FlHeap) (root : Nat) (v : FlView) : Prop where
  ptr : v.ptr = root
  unfolds : v.Unfolds H
  good : v.Good
  detached : v.record.parent = none
  below : ∀ x, H.Below root x ↔ x ∈ v.ptrs
  up : ∀ x ∈ v.ptrs, H.Up root x

/-- What `fl_list_add(p, c)` is called with: `p` is a directory of the tree, and `c` a named
detached subtree with I1-I3 outside the tree, whose name none of `p`'s children holds. -/
structure FlHeap.AddOk (H : FlHeap) (root p : Nat) (c : FlView) : Prop where
  below : H.Below root p
  parent : ∃ pn nm, H.nodes p = some pn ∧ pn.isfile = false ∧ c.record.name = some nm ∧
    ∀ q ∈ pn.sub.getD [], (H.nodes q).bind FlNode.name ≠ some nm
  unfolds : c.Unfolds H
  good : c.Good
  detached : c.record.parent = none
  outside : ∀ x ∈ c.ptrs, ¬ H.Below root x

/-- The heaps reached from a fresh root. -/
inductive FlReachable (root : Nat) : FlHeap → Prop
  | fresh {H : FlHeap} : H.nodes root = some FlNode.freshRoot → H.Bounded → FlReachable root H
  | add {H H' : FlHeap} {p : Nat} {c : FlView} : FlReachable root H → H.AddOk root p c →
      flListAdd H (some p) c.ptr = some H' → FlReachable root H'
  | remove {H H' : FlHeap} {n : Nat} : FlReachable root H → H.Below root n → n ≠ root →
      flListRemove H n = some H' → FlReachable root H'
  | alloc {H H' : FlHeap} : FlReachable root H → H.next ≤ H'.next →
      (∀ x < H.next, H'.nodes x = H.nodes x) → H'.Bounded → FlReachable root H'

/-! ### Reading the tree off a view -/

section Read

variable {H : FlHeap}

theorem FlView.below_iff {v : FlView} (hv : v.Unfolds H) (x : Nat) :
    H.Below v.ptr x ↔ x ∈ v.ptrs := by
  constructor
  · intro h
    induction h with
    | root => exact ptr_mem_ptrs v
    | @sub q x n _ hn hx ih =>
        obtain ⟨z, hz, rfl⟩ := List.mem_map.1 ih
        obtain ⟨hzn, hzs, -⟩ := hv z hz
        rw [hzn, Option.some.injEq] at hn
        rw [← hn, hzs] at hx
        obtain ⟨d, hd, rfl⟩ := List.mem_map.1 hx
        exact ptr_mem_of_mem_subtrees (subtrees_trans hz (mem_subtrees_of_child hd))
  · suffices ∀ w : FlView, w.Unfolds H → H.Below v.ptr w.ptr → ∀ x ∈ w.ptrs, H.Below v.ptr x from
      this v hv .root x
    intro w
    induction w using FlView.induct with
    | node p n cs ih =>
        intro hw hp x hx
        rcases List.mem_cons.1 (ptrs_node p n cs ▸ hx) with rfl | hx
        · exact hp
        obtain ⟨c, hc, hxc⟩ := List.mem_flatMap.1 hx
        have hloc := hw _ (mem_subtrees_self _)
        simp only [Local, ptr_node, record_node, children_node] at hloc
        exact ih c hc ((unfolds_node_iff.1 hw).2 c hc)
          (.sub hp hloc.1 (hloc.2.1 ▸ List.mem_map_of_mem _ hc)) x hxc

theorem FlView.up_of_unfolds {root : Nat} : ∀ {v : FlView}, v.Unfolds H → H.Up root v.ptr →
    ∀ x ∈ v.ptrs, H.Up root x := by
  intro v
  induction v using FlView.induct with
  | node p n cs ih =>
      intro hv hp x hx
      rcases List.mem_cons.1 (ptrs_node p n cs ▸ hx) with rfl | hx
      · exact hp
      obtain ⟨c, hc, hxc⟩ := List.mem_flatMap.1 hx
      have hcu := (unfolds_node_iff.1 hv).2 c hc
      exact ih c hc hcu (.parent hcu.nodes ((hv _ (mem_subtrees_self _)).2.2 c hc) hp) x hxc

theorem FlView.exists_parent_of_mem : ∀ {v : FlView} {x : Nat}, x ∈ v.ptrs → x ≠ v.ptr →
    ∃ u ∈ v.subtrees, ∃ d ∈ u.children, d.ptr = x := by
  intro v
  induction v using FlView.induct with
  | node p n cs ih =>
      intro x hx hne
      rcases List.mem_cons.1 (ptrs_node p n cs ▸ hx) with rfl | hx
      · exact absurd rfl hne
      obtain ⟨c, hc, hxc⟩ := List.mem_flatMap.1 hx
      by_cases hxp : x = c.ptr
      · exact ⟨node p n cs, mem_subtrees_self _, c, hc, hxp.symm⟩
      · obtain ⟨u, hu, d, hd, rfl⟩ := ih c hc hxc hxp
        exact ⟨u, subtrees_subset_of_mem hc hu, d, hd, rfl⟩

theorem FlView.ptrs_lt {v : FlView} (hv : v.Unfolds H) (hb : H.Bounded) :
    ∀ x ∈ v.ptrs, x < H.next := fun x hx => by
  obtain ⟨z, hz, rfl⟩ := List.mem_map.1 hx
  by_contra h
  have := (hv.sub hz).nodes
  rw [hb _ (Nat.le_of_not_lt h)] at this
  exact Option.noConfusion this

theorem FlHeap.TreeOk.subtree {root : Nat} {v : FlView} (ht : H.TreeOk root v) {p : Nat}
    (hp : H.Below root p) : ∃ w ∈ v.subtrees, w.ptr = p := by
  obtain ⟨w, hw, rfl⟩ := List.mem_map.1 ((ht.below p).1 hp)
  exact ⟨w, hw, rfl⟩

theorem FlHeap.TreeOk.of_unfolds {root : Nat} {v : FlView} (hp : v.ptr = root)
    (hv : v.Unfolds H) (hg : v.Good) (hd : v.record.parent = none) : H.TreeOk root v where
  ptr := hp
  unfolds := hv
  good := hg
  detached := hd
  below := hp ▸ below_iff hv
  up := up_of_unfolds hv (hp ▸ .root)

end Read

/-! ### One step -/

section Step

variable {H : FlHeap} {root : Nat} {v : FlView} (ht : H.TreeOk root v) (hb : H.Bounded)
include ht hb

theorem FlHeap.TreeOk.fuel : v.ptrs.length ≤ H.next :=
  length_le_of_nodup_of_lt ht.good.nodup (ptrs_lt ht.unfolds hb)

theorem FlHeap.TreeOk.add {p : Nat} {c : FlView} (ha : H.AddOk root p c) :
    ∃ H' v', flListAdd H (some p) c.ptr = some H' ∧ H'.TreeOk root v' ∧ H'.Bounded := by
  obtain ⟨u, hu, rfl⟩ := ht.subtree ha.below
  obtain ⟨pn, nm, hpn, hdir, hname, hfresh⟩ := ha.parent
  obtain rfl : pn = u.record := Option.some.inj (hpn.symm.trans (ht.unfolds.sub hu).nodes)
  have hdis : ∀ x ∈ c.ptrs, x ∉ v.ptrs := fun x hx h => ha.outside x hx ((ht.below x).2 h)
  have hnm : nm ∉ names u.children := fun h => by
    obtain ⟨d, hd, hdn⟩ := List.mem_map.1 h
    have hdv : d ∈ v.subtrees := subtrees_trans hu (mem_subtrees_of_child hd)
    obtain ⟨a, ha'⟩ := Option.isSome_iff_exists.1 (((ht.good.nodes u hu).dir hdir).2.named d hd)
    refine hfresh d.ptr ?_ ?_
    · rw [(ht.unfolds u hu).2.1]; exact List.mem_map_of_mem _ hd
    · rw [(ht.unfolds.sub hdv).nodes, Option.some_bind, ha', ← hdn, ha', Option.getD_some]
  obtain ⟨H', hadd, hnext, hframe, hu', hg', hd'⟩ := flListAdd_view ht.unfolds ht.good
    ht.detached hu hdir ha.unfolds ha.good hdis hname hnm (ht.fuel hb)
  refine ⟨H', v.add u c, hadd, .of_unfolds ?_ hu' hg' hd', fun x hx => ?_⟩
  · exact (ptr_add v u c).trans ht.ptr
  · have hx' : H.next ≤ x := hnext ▸ hx
    rw [hframe x (fun h => absurd (ptrs_lt ht.unfolds hb x h) (by omega))
      (fun h => absurd (ptrs_lt ha.unfolds hb x h) (by omega)), hb x hx']

theorem FlHeap.TreeOk.remove {n : Nat} (hn : H.Below root n) (hne : n ≠ root) :
    ∃ H' v', flListRemove H n = some H' ∧ H'.TreeOk root v' ∧ H'.Bounded := by
  obtain ⟨u, hu, d, hd, rfl⟩ := exists_parent_of_mem ((ht.below n).1 hn) (ht.ptr ▸ hne)
  obtain ⟨H', hrem, hnext, hframe, -, hu', hg', hd'⟩ := flListRemove_view ht.unfolds ht.good
    ht.detached hu hd (ht.fuel hb)
  refine ⟨H', v.remove u d, hrem, .of_unfolds ?_ hu' hg' hd', fun x hx => ?_⟩
  · exact (ptr_remove v u d).trans ht.ptr
  · rw [hframe x fun h => absurd (ptrs_lt ht.unfolds hb x h) (by omega), hb x (hnext ▸ hx)]

theorem FlHeap.TreeOk.alloc {H' : FlHeap} (hframe : ∀ x < H.next, H'.nodes x = H.nodes x) :
    H'.TreeOk root v :=
  .of_unfolds ht.ptr (ht.unfolds.congr fun x hx => hframe x (ptrs_lt ht.unfolds hb x hx))
    ht.good ht.detached

theorem FlHeap.TreeOk.copy {n : Nat} (hn : H.Below root n) :
    ∃ (w : FlView) (H' : FlHeap) (w' : FlView), w ∈ v.subtrees ∧ w.ptr = n ∧
      flListCopy H H.next n = some (H', w'.ptr) ∧
      w'.strip = w.strip ∧ w'.Unfolds H' ∧ w'.Good ∧ w'.record.parent = none := by
  obtain ⟨w, hw, rfl⟩ := ht.subtree hn
  obtain ⟨H', w', hcopy, hc, hpar⟩ := flListCopy_view H.next (ht.unfolds.sub hw) hb
    (fun x hx => ptrs_lt ht.unfolds hb x (ptrs_subset_of_mem hw hx))
    (le_trans ((ht.good.sub hw).nodup.subperm (ptrs_subset_of_mem hw)).length_le (ht.fuel hb))
  exact ⟨w, H', w', hw, rfl, hcopy, hc.strip, hc.unfolds,
    (ht.good.sub hw).of_strip_eq hc.strip (hc.ptrs ▸ List.nodup_range' _ _), hpar⟩

end Step

theorem FlHeap.TreeOk.fresh {H : FlHeap} {root : Nat} (h : H.nodes root = some FlNode.freshRoot) :
    H.TreeOk root (node root FlNode.freshRoot []) := by
  refine .of_unfolds rfl ?_ ⟨by simp, fun w hw => ?_⟩ rfl
  · rw [unfolds_node_iff]; exact ⟨⟨h, rfl, by simp⟩, by simp⟩
  · rw [subtrees_node, List.flatMap_nil, List.mem_singleton] at hw
    subst hw
    exact nodeOk_of_dir rfl ⟨rfl, by simp, by simp [names], by simp [FlNode.freshRoot, FlNode.zero],
      by simp [FlNode.freshRoot, FlNode.zero]⟩

theorem FlReachable.treeOk {root : Nat} {H : FlHeap} (h : FlReachable root H) :
    (∃ v, H.TreeOk root v) ∧ H.Bounded := by
  induction h with
  | fresh hr hb => exact ⟨⟨_, .fresh hr⟩, hb⟩
  | add _ ha hadd ih =>
      obtain ⟨⟨v, ht⟩, hb⟩ := ih
      obtain ⟨H', v', hadd', ht', hb'⟩ := ht.add hb ha
      obtain rfl := Option.some.inj (hadd.symm.trans hadd')
      exact ⟨⟨v', ht'⟩, hb'⟩
  | remove _ hn hne hrem ih =>
      obtain ⟨⟨v, ht⟩, hb⟩ := ih
      obtain ⟨H', v', hrem', ht', hb'⟩ := ht.remove hb hn hne
      obtain rfl := Option.some.inj (hrem.symm.trans hrem')
      exact ⟨⟨v', ht'⟩, hb'⟩
  | alloc _ _ hframe hb' ih =>
      obtain ⟨⟨v, ht⟩, hb⟩ := ih
      exact ⟨⟨v, ht.alloc hb hframe⟩, hb'⟩

/-- On every reachable heap the tree below the root has I1-I3, its parent pointers lead to the root,
and adding and removing under the conditions of the run return. `fl_list_copy` of any node returns a
detached copy with the same records and I1-I3. -/
theorem fl_list_tree_invariants {root : Nat} {H : FlHeap} (h : FlReachable root H) :
    ∃ v, H.TreeOk root v ∧
      (∀ p c, H.AddOk root p c → ∃ H', flListAdd H (some p) c.ptr = some H') ∧
      (∀ n, H.Below root n → n ≠ root → ∃ H', flListRemove H n = some H') ∧
      ∀ n, H.Below root n → ∃ (w : FlView) (H' : FlHeap) (w' : FlView), w ∈ v.subtrees ∧ w.ptr = n ∧
        flListCopy H H.next n = some (H', w'.ptr) ∧ w'.strip = w.strip ∧ w'.Unfolds H' ∧
        w'.Good ∧ w'.record.parent = none := by
  obtain ⟨⟨v, ht⟩, hb⟩ := h.treeOk
  refine ⟨v, ht, fun p c ha => ?_, fun n hn hne => ?_, fun n hn => ht.copy hb hn⟩
  · obtain ⟨H', -, hadd, -⟩ := ht.add hb ha; exact ⟨H', hadd⟩
  · obtain ⟨H', -, hrem, -⟩ := ht.remove hb hn hne; exact ⟨H', hrem⟩

def fileA : FlNode :=
  { FlNode.zero with name := some "a".toList, size := 5, hastth := 1, isfile := true }

/-- A fresh root at 0 and the file `a` allocated at 1. -/
def rootAndFileA : FlHeap :=
  ⟨fun x => if x = 0 then some FlNode.freshRoot else if x = 1 then some fileA else none, 2⟩

theorem fileA_added_reachable :
    FlReachable 0 ((flListAdd rootAndFileA (some 0) 1).getD rootAndFileA) := by
  have hroot : (node 0 FlNode.freshRoot []).Unfolds rootAndFileA := by
    rw [unfolds_node_iff]; exact ⟨⟨rfl, rfl, by simp⟩, by simp⟩
  have h0 : FlReachable 0 ⟨fun x => if x = 0 then some FlNode.freshRoot else none, 1⟩ :=
    .fresh rfl fun x hx => if_neg (by simp at hx; omega)
  have h1 : FlReachable 0 rootAndFileA :=
    .alloc h0 (by decide) (fun x hx => by simp at hx; subst hx; rfl)
      fun x hx => by
        have h2 : 2 ≤ x := hx
        simp [rootAndFileA, show x ≠ 0 by omega, show x ≠ 1 by omega]
  refine .add (p := 0) (c := node 1 fileA []) h1 ⟨.root, ?_, ?_, ?_, rfl, ?_⟩ rfl
  · exact ⟨FlNode.freshRoot, "a".toList, rfl, rfl, rfl, by simp [FlNode.freshRoot, FlNode.zero]⟩
  · rw [unfolds_node_iff]; exact ⟨⟨rfl, rfl, by simp⟩, by simp⟩
  · refine ⟨by simp, fun w hw => ?_⟩
    simp only [subtrees_node, List.flatMap_nil, List.mem_singleton] at hw
    subst hw
    unfold NodeOk
    simp [fileA, FlNode.zero]
  · intro x hx h
    have := (below_iff hroot x).1 h
    simp at hx this; omega

/-- `fl_list_add(root, a)` on it lists `a` under the root, with its size and count. -/
theorem file_a_listed :
    FlReachable 0 ((flListAdd rootAndFileA (some 0) 1).getD rootAndFileA) ∧
      ((flListAdd rootAndFileA (some 0) 1).getD rootAndFileA).nodes 0 =
        some { FlNode.freshRoot with sub := some [1], size := 5, hastth := 1 } ∧
      ∃ v, ((flListAdd rootAndFileA (some 0) 1).getD rootAndFileA).TreeOk 0 v :=
  ⟨fileA_added_reachable, rfl,
    (fl_list_tree_invariants fileA_added_reachable).imp fun _ h => h.1⟩

end Ncdc
