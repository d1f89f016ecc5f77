import Ncdc.FileList.Edit

/-!
What `fl_list_copy` makes of a tree: a detached copy, allocated in preorder from the
allocation counter, that holds the same records but for the pointers and keeps I1-I3.
-/

namespace Ncdc

open FlView

/-- No record past the allocation counter. -/
def FlHeap.Bounded (H : FlHeap) : Prop := ∀ x, H.next ≤ x → H.nodes x = none

namespace FlView

mutual
/-- The view without its pointers: each record with `parent` cleared and the pointers of
its sequence forgotten. -/
def strip : FlView → FlView
  | node _ n cs => node 0 { n with parent := none, sub := n.sub.map fun _ => [] } (stripList cs)
/-- `strip` on each view of a list. -/
def stripList : List FlView → List FlView
  | [] => []
  | c :: cs => strip c :: stripList cs
end

theorem stripList_eq : ∀ cs : List FlView, stripList cs = cs.map strip
  | [] => rfl
  | c :: cs => by rw [stripList, stripList_eq cs, List.map_cons]

@[simp] theorem strip_node (p : Nat) (n : FlNode) (cs : List FlView) :
    (node p n cs).strip =
      node 0 { n with parent := none, sub := n.sub.map fun _ => [] } (cs.map strip) := by
  rw [strip, stripList_eq]

@[simp] theorem strip_reparent (c : FlView) (q : Option Nat) : (c.reparent q).strip = c.strip := by
  cases c; simp [reparent]

@[simp] theorem ptr_reparent (c : FlView) (q : Option Nat) : (c.reparent q).ptr = c.ptr := rfl

theorem subtrees_strip : ∀ w : FlView, w.strip.subtrees = w.subtrees.map strip := by
  intro w
  induction w using induct with
  | node p n cs ih =>
      simp only [strip_node, subtrees_node, List.map_cons, List.map_flatMap, List.flatMap_map]
      congr 1
      exact List.flatMap_congr fun c hc => ih c hc

theorem map_eq_of_strip {β : Type} {g : FlView → β} (hg : ∀ c, g c.strip = g c)
    {cs cs' : List FlView} (h : cs'.map strip = cs.map strip) : cs'.map g = cs.map g := by
  have hl : ∀ l : List FlView, l.map g = (l.map strip).map g := fun l => by
    rw [List.map_map]; exact List.map_congr_left fun c _ => (hg c).symm
  rw [hl cs', h, ← hl cs]

theorem nodeOk_of_strip_eq {w w' : FlView} (h : w'.strip = w.strip) (hw : NodeOk w) :
    NodeOk w' := by
  cases w with
  | node p n cs =>
  cases w' with
  | node p' n' cs' =>
  simp only [strip_node, node.injEq, FlNode.mk.injEq, true_and] at h
  obtain ⟨⟨hname, hsub, hsize, -, hth, hfile, -⟩, hcs⟩ := h
  have hmap : ∀ {β : Type} {g : FlView → β}, (∀ c, g c.strip = g c) → cs'.map g = cs.map g :=
    fun hg => map_eq_of_strip hg hcs
  have hnone : n'.sub = none ↔ n.sub = none := by
    rw [← Option.map_eq_none' (f := fun _ => ([] : List Nat)), hsub, Option.map_eq_none']
  unfold NodeOk at hw ⊢
  simp only [record_node, children_node, hfile, hsize, hth] at hw ⊢
  split_ifs at hw ⊢
  · exact ⟨hnone.2 hw.1, hw.2⟩
  · refine ⟨by simpa [Option.isSome_iff_ne_none, hnone] using hw.1, ⟨?_, ?_, ?_, ?_⟩⟩
    · intro c hc
      obtain ⟨c₀, hc₀, he⟩ := List.mem_map.1
        ((hmap (g := fun c => c.record.name) fun c => by cases c; rfl) ▸ List.mem_map_of_mem _ hc)
      exact he ▸ hw.2.named c₀ hc₀
    · rw [names, hmap (g := fun c => c.record.name.getD []) fun c => by cases c; rfl]
      exact hw.2.sorted
    · rw [hsize, hmap (g := fun c => c.record.size) fun c => by cases c; rfl]; exact hw.2.size
    · have := congrArg (List.countP id) (hmap (g := fun c => !c.record.isfile ||
        decide (c.record.hastth = 1)) fun c => by cases c; rfl)
      simp only [List.countP_map] at this
      rw [hth, hw.2.hastth]; exact_mod_cast this.symm

theorem Good.of_strip_eq {w w' : FlView} (hw : w.Good) (h : w'.strip = w.strip)
    (hnd : w'.ptrs.Nodup) : w'.Good where
  nodup := hnd
  nodes y hy := by
    have : y.strip ∈ w.subtrees.map strip := by
      rw [← subtrees_strip, ← h, subtrees_strip]; exact List.mem_map_of_mem _ hy
    obtain ⟨z, hz, hzy⟩ := List.mem_map.1 this
    exact nodeOk_of_strip_eq hzy.symm (hw.nodes z hz)

end FlView

/-- `w'` is a copy of `w` made from `H` in `H'`: at the pointers from `H.next` on in
preorder, held by `H'`, with the same strip, and nothing below `H.next` changed. -/
structure CopyOf (H H' : FlHeap) (w w' : FlView) : Prop where
  ptrs : w'.ptrs = List.range' H.next w.ptrs.length
  unfolds : w'.Unfolds H'
  strip : w'.strip = w.strip
  next : H'.next = H.next + w.ptrs.length
  frame : ∀ x < H.next, H'.nodes x = H.nodes x
  bounded : H'.Bounded

theorem CopyOf.lt {H H' : FlHeap} {w w' : FlView} (h : CopyOf H H' w w') {x : Nat}
    (hx : x ∈ w'.ptrs) : H.next ≤ x ∧ x < H'.next := by
  rw [h.ptrs, List.mem_range'_1] at hx
  rw [h.next]; exact hx

section Copy

variable {k cur : Nat}

theorem copyStep_loop : ∀ {cs : List FlView},
    (∀ c ∈ cs, ∀ H : FlHeap, c.Unfolds H → H.Bounded → (∀ x ∈ c.ptrs, x < H.next) →
      ∃ H' c', flListCopy H k c.ptr = some (H', c'.ptr) ∧ CopyOf H H' c c') →
    ∀ (H : FlHeap) (subs : List Nat), (∀ c ∈ cs, c.Unfolds H) → H.Bounded →
      (∀ c ∈ cs, ∀ x ∈ c.ptrs, x < H.next) → cur < H.next →
      ∃ (H' : FlHeap) (ws : List FlView), (cs.map ptr).foldlM (copyStep (fun H c => flListCopy H k c) cur) (H, subs) =
          some (H', subs ++ ws.map ptr) ∧
        ws.map strip = cs.map strip ∧ (∀ w ∈ ws, w.Unfolds H' ∧ w.record.parent = some cur) ∧
        ws.flatMap ptrs = List.range' H.next (cs.flatMap ptrs).length ∧
        H'.next = H.next + (cs.flatMap ptrs).length ∧ (∀ x < H.next, H'.nodes x = H.nodes x) ∧
        H'.Bounded := by
  intro cs
  induction cs with
  | nil => intro _ H subs _ hb _ _; exact ⟨H, [], by simp, rfl, by simp, by simp, by simp,
      fun _ _ => rfl, hb⟩
  | cons c cs ihl =>
      intro ih H subs hu hb hlt hcur
      obtain ⟨H1, c', hcopy, hc'⟩ := ih c (List.mem_cons_self _ _) H (hu c (List.mem_cons_self _ _))
        hb (hlt c (List.mem_cons_self _ _))
      have hc'p : H.next ≤ c'.ptr := (hc'.lt (ptr_mem_ptrs c')).1
      -- the copy pointed back at `cur`
      let H2 := H1.set c'.ptr { c'.record with parent := some cur }
      have hH2 : ∀ x < H.next, H2.nodes x = H.nodes x := fun x hx => by
        rw [FlHeap.set_nodes_ne _ _ (by omega), hc'.frame x hx]
      have hnext2 : H2.next = H.next + c.ptrs.length := hc'.next
      have hb2 : H2.Bounded := fun x hx => by
        rw [FlHeap.set_nodes_ne _ _ (fun h => by
          have := (hc'.lt (ptr_mem_ptrs c')).2; simp [H2] at hx; omega)]
        exact hc'.bounded x hx
      obtain ⟨H', ws, hfold, hstrip, hws, hptrs, hnext, hframe, hbd⟩ :=
        ihl (fun c h => ih c (List.mem_cons_of_mem _ h)) H2 (subs ++ [c'.ptr])
          (fun d hd => (hu d (List.mem_cons_of_mem _ hd)).congr fun y hy =>
            hH2 y (hlt d (List.mem_cons_of_mem _ hd) y hy))
          hb2 (fun d hd y hy => by rw [hnext2]; have := hlt d (List.mem_cons_of_mem _ hd) y hy; omega)
          (by rw [hnext2]; omega)
      have hc'nd : c'.ptrs.Nodup := hc'.ptrs ▸ List.nodup_range' _ _
      have hc'u : (c'.reparent (some cur)).Unfolds H2 :=
        hc'.unfolds.reparent hc'nd (by simp [H2]) fun y _ hy => FlHeap.set_nodes_ne _ _ hy
      refine ⟨H', c'.reparent (some cur) :: ws, ?_, ?_, fun w hw => ?_, ?_, ?_, ?_, hbd⟩
      · simp only [List.map_cons, List.foldlM_cons, copyStep, hcopy, hc'.unfolds.nodes,
          Option.bind_eq_bind, Option.some_bind]
        rw [hfold]; simp
      · simp [hstrip, hc'.strip]
      · rcases List.mem_cons.1 hw with rfl | hw
        · refine ⟨hc'u.congr fun y hy => hframe y ?_, rfl⟩
          rw [ptrs_reparent] at hy; rw [hnext2]; exact hc'.next ▸ (hc'.lt hy).2
        · exact hws w hw
      · rw [List.flatMap_cons, ptrs_reparent, hptrs, hc'.ptrs, hnext2, List.flatMap_cons,
          List.length_append, List.range'_append_1, Nat.add_comm]
      · rw [hnext, hnext2, List.flatMap_cons, List.length_append]; omega
      · intro x hx; rw [hframe x (by omega), hH2 x hx]

theorem flListCopy_view : ∀ {w : FlView} {H : FlHeap} (fuel : Nat), w.Unfolds H → H.Bounded →
    (∀ x ∈ w.ptrs, x < H.next) → w.ptrs.length ≤ fuel →
    ∃ H' w', flListCopy H fuel w.ptr = some (H', w'.ptr) ∧ CopyOf H H' w w' ∧
      w'.record.parent = none := by
  intro w
  induction w using FlView.induct with
  | node x n cs ih =>
      intro H fuel hw hb hlt hfuel
      obtain ⟨k, rfl⟩ : ∃ k, fuel = k + 1 := ⟨fuel - 1, by simp at hfuel; omega⟩
      have hloc := hw _ (mem_subtrees_self _)
      simp only [Local, ptr_node, record_node, children_node] at hloc
      -- the copied record, at the counter
      let H1 : FlHeap := (H.alloc { n with parent := none }).1
      have hH1 : ∀ y < H.next, H1.nodes y = H.nodes y := fun y hy => by
        simp [H1, FlHeap.alloc, Function.update_noteq (Nat.ne_of_lt hy)]
      have hb1 : H1.Bounded := fun y hy => by
        simp only [H1, FlHeap.alloc] at hy ⊢
        rw [Function.update_noteq (by omega)]; exact hb y (by omega)
      cases hsub : n.sub with
      | none =>
          have hcs : cs = [] := by
            have := hloc.2.1; rw [hsub, Option.getD_none] at this
            exact List.map_eq_nil_iff.1 this.symm
          subst hcs
          refine ⟨H1, node H.next { n with parent := none } [], ?_, ⟨by simp, ?_, by simp, ?_,
            hH1, hb1⟩, rfl⟩
          · simp [flListCopy, hloc.1, hsub, H1, FlHeap.alloc]
          · rw [unfolds_node_iff]
            exact ⟨⟨by simp [H1, FlHeap.alloc], by simp [hsub], by simp⟩, by simp⟩
          · simp [H1, FlHeap.alloc]
      | some qs =>
          have hqs : qs = cs.map ptr := by
            have := hloc.2.1; rwa [hsub, Option.getD_some] at this
          subst hqs
          have hlen : (cs.flatMap ptrs).length ≤ k := by
            simp only [ptrs_node, List.length_cons] at hfuel; omega
          have hclt : ∀ c ∈ cs, ∀ y ∈ c.ptrs, y < H.next := fun c hc y hy =>
            hlt y (ptrs_subset_of_child hc hy)
          obtain ⟨H2, ws, hfold, hstrip, hws, hptrs, hnext, hframe, hbd⟩ :=
            @copyStep_loop k H.next cs
              (fun c hc H hcu hcb hcl => (ih c hc k hcu hcb hcl (le_trans (by
                rw [List.flatMap_def]
                exact (List.sublist_flatten_of_mem (List.mem_map_of_mem _ hc)).length_le) hlen)).imp
                fun _ ⟨w', h1, h2, _⟩ => ⟨w', h1, h2⟩)
              H1 [] (fun c hc => ((unfolds_node_iff.1 hw).2 c hc).congr fun y hy =>
                hH1 y (hclt c hc y hy)) hb1
              (fun c hc y hy => by have := hclt c hc y hy; simp [H1, FlHeap.alloc]; omega)
              (by simp [H1, FlHeap.alloc])
          have hH2cur : H2.nodes H.next = some { n with parent := none } := by
            rw [hframe _ (by simp [H1, FlHeap.alloc])]; simp [H1, FlHeap.alloc]
          have hnext1 : H1.next = H.next + 1 := rfl
          let w' := node H.next { n with parent := none, sub := some (ws.map ptr) } ws
          have hwsp : ∀ w ∈ ws, ∀ y ∈ w.ptrs, H.next + 1 ≤ y := fun w hw y hy => by
            have : y ∈ ws.flatMap ptrs := List.mem_flatMap.2 ⟨w, hw, hy⟩
            rw [hptrs, List.mem_range'_1] at this; exact this.1
          refine ⟨H2.set H.next { n with parent := none, sub := some (ws.map ptr) }, w', ?_,
            ⟨?_, ?_, ?_, ?_, ?_, ?_⟩, rfl⟩
          · have halloc : H.alloc { n with parent := none } = (H1, H.next) := rfl
            simp only [flListCopy, ptr_node, hloc.1, Option.bind_eq_bind, Option.some_bind, halloc]
            rw [hsub]
            simp only []
            rw [hfold]
            simp [hH2cur, w']
          · simp only [w', ptrs_node, hptrs, List.length_cons, hnext1]
            rw [List.range'_succ]
          · rw [unfolds_node_iff]
            refine ⟨⟨by simp, by simp, fun c hc => (hws c hc).2⟩, fun c hc =>
              (hws c hc).1.congr fun y hy => FlHeap.set_nodes_ne _ _ ?_⟩
            have := hwsp c hc y hy; omega
          · simp only [w', strip_node, hstrip, hsub, Option.map_some']
          · simp only [FlHeap.set_next, hnext, hnext1, ptrs_node, List.length_cons]; omega
          · intro y hy
            rw [FlHeap.set_nodes_ne _ _ (by omega), hframe y (by omega), hH1 y hy]
          · intro y hy
            simp only [FlHeap.set_next, hnext, hnext1] at hy
            rw [FlHeap.set_nodes_ne _ _ (by omega)]
            exact hbd y (by rw [hnext, hnext1]; omega)

end Copy

end Ncdc
