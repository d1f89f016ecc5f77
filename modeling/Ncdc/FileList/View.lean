import Ncdc.FileList.Node

/-!
Views of the file-list heap: the finite tree of records below one pointer. `FlView.Unfolds`
says the heap holds a view, and `FlView.Good` states I1 (names ascend under `strcmp`), I2
(`size` sums the children) and I3 (`hastth` counts them).
-/

namespace Ncdc

/-- The records below a pointer as a finite tree. -/
inductive FlView
  | node (ptr : Nat) (rec : FlNode) (children : List FlView)
  deriving Repr

namespace FlView

def ptr : FlView → Nat
  | node p _ _ => p

def record : FlView → FlNode
  | node _ n _ => n

def children : FlView → List FlView
  | node _ _ cs => cs

@[simp] theorem ptr_node (p : Nat) (n : FlNode) (cs : List FlView) : (node p n cs).ptr = p := rfl
@[simp] theorem record_node (p : Nat) (n : FlNode) (cs : List FlView) :
    (node p n cs).record = n := rfl
@[simp] theorem children_node (p : Nat) (n : FlNode) (cs : List FlView) :
    (node p n cs).children = cs := rfl

theorem sizeOf_lt_of_mem {p : Nat} {n : FlNode} {cs : List FlView} {c : FlView} (h : c ∈ cs) :
    sizeOf c < sizeOf (node p n cs) := by
  have := List.sizeOf_lt_of_mem h
  simp only [node.sizeOf_spec]; omega

theorem induct {motive : FlView → Prop}
    (node : ∀ p n cs, (∀ c ∈ cs, motive c) → motive (node p n cs)) : ∀ v, motive v
  | .node p n cs => node p n cs fun c _ => induct node c
termination_by v => sizeOf v
decreasing_by exact sizeOf_lt_of_mem ‹_›

/-! ### Nodes and pointers -/

mutual
/-- Every node of the view, in preorder. -/
def subtrees : FlView → List FlView
  | node p n cs => node p n cs :: subtreesList cs
/-- The nodes of a list of views. -/
def subtreesList : List FlView → List FlView
  | [] => []
  | c :: cs => c.subtrees ++ subtreesList cs
end

theorem subtreesList_eq : ∀ cs : List FlView, subtreesList cs = cs.flatMap subtrees
  | [] => rfl
  | c :: cs => by rw [subtreesList, subtreesList_eq cs, List.flatMap_cons]

@[simp] theorem subtrees_node (p : Nat) (n : FlNode) (cs : List FlView) :
    (node p n cs).subtrees = node p n cs :: cs.flatMap subtrees := by
  rw [subtrees, subtreesList_eq]

theorem mem_subtrees_self (v : FlView) : v ∈ v.subtrees := by
  cases v; simp

theorem subtrees_subset_of_mem {p : Nat} {n : FlNode} {cs : List FlView} {c : FlView}
    (h : c ∈ cs) : c.subtrees ⊆ (node p n cs).subtrees := fun w hw => by
  simp only [subtrees_node, List.mem_cons, List.mem_flatMap]
  exact .inr ⟨c, h, hw⟩

theorem mem_subtrees_of_child {u d : FlView} (hd : d ∈ u.children) : d ∈ u.subtrees := by
  cases u with
  | node p n cs => exact subtrees_subset_of_mem hd (mem_subtrees_self d)

theorem subtrees_trans : ∀ {v w : FlView}, w ∈ v.subtrees → w.subtrees ⊆ v.subtrees := by
  intro v
  induction v using induct with
  | node p n cs ih =>
      intro w hw
      simp only [subtrees_node, List.mem_cons, List.mem_flatMap] at hw
      rcases hw with rfl | ⟨c, hc, hw⟩
      · exact fun _ h => h
      · exact fun x hx => subtrees_subset_of_mem hc (ih c hc hw hx)

theorem subtrees_sublist :
    ∀ {v w : FlView}, w ∈ v.subtrees → List.Sublist w.subtrees v.subtrees := by
  intro v
  induction v using induct with
  | node p n cs ih =>
      intro w hw
      simp only [subtrees_node, List.mem_cons, List.mem_flatMap] at hw
      rcases hw with rfl | ⟨c, hc, hw⟩
      · exact .refl _
      · rw [subtrees_node, List.flatMap_def]
        exact ((ih c hc hw).trans (List.sublist_flatten_of_mem (List.mem_map_of_mem _ hc))).cons _

/-- Every pointer of the view, in preorder. -/
def ptrs (v : FlView) : List Nat := v.subtrees.map ptr

@[simp] theorem ptrs_node (p : Nat) (n : FlNode) (cs : List FlView) :
    (node p n cs).ptrs = p :: cs.flatMap ptrs := by
  simp only [ptrs, subtrees_node, List.map_cons, List.map_flatMap]; rfl

theorem ptr_mem_ptrs (v : FlView) : v.ptr ∈ v.ptrs := List.mem_map_of_mem _ (mem_subtrees_self v)

/-! ### What the heap holds -/

/-- The heap holds the node `w`: its record at its pointer, its children's pointers as its
`sub` sequence, and its pointer as each child's `parent`. -/
def Local (H : FlHeap) (w : FlView) : Prop :=
  H.nodes w.ptr = some w.record ∧ w.record.sub.getD [] = w.children.map ptr ∧
    ∀ c ∈ w.children, c.record.parent = some w.ptr

/-- The heap holds the view. -/
def Unfolds (H : FlHeap) (v : FlView) : Prop := ∀ w ∈ v.subtrees, Local H w

theorem unfolds_node_iff {H : FlHeap} {p : Nat} {n : FlNode} {cs : List FlView} :
    (node p n cs).Unfolds H ↔ Local H (node p n cs) ∧ ∀ c ∈ cs, c.Unfolds H := by
  simp only [Unfolds, subtrees_node, List.forall_mem_cons, List.mem_flatMap,
    forall_exists_index, and_imp]
  exact and_congr_right fun _ => ⟨fun h c hc w hw => h w c hc hw, fun h w c hc hw => h c hc w hw⟩

theorem Unfolds.nodes {H : FlHeap} {v : FlView} (h : v.Unfolds H) : H.nodes v.ptr = some v.record :=
  (h v (mem_subtrees_self v)).1

theorem Unfolds.sub {H : FlHeap} {v : FlView} (h : v.Unfolds H) {w : FlView}
    (hw : w ∈ v.subtrees) : w.Unfolds H :=
  fun u hu => h u (subtrees_trans hw hu)

theorem Unfolds.congr {H H' : FlHeap} {v : FlView} (h : v.Unfolds H)
    (he : ∀ x ∈ v.ptrs, H'.nodes x = H.nodes x) : v.Unfolds H' := fun w hw => by
  obtain ⟨h1, h2, h3⟩ := h w hw
  exact ⟨(he _ (List.mem_map_of_mem _ hw)).trans h1, h2, h3⟩

/-! ### The tree invariants -/

/-- The children's names in order, as `strcmp` reads them. -/
def names (cs : List FlView) : List (List Char) := cs.map fun c => c.record.name.getD []

@[simp] theorem names_nil : names [] = [] := rfl

@[simp] theorem names_cons (c : FlView) (cs : List FlView) :
    names (c :: cs) = c.record.name.getD [] :: names cs := rfl

@[simp] theorem names_append (cs ds : List FlView) : names (cs ++ ds) = names cs ++ names ds :=
  List.map_append _ _ _

/-- I1-I3 at a directory with record `n` and children `cs`. -/
structure DirOk (n : FlNode) (cs : List FlView) : Prop where
  named : ∀ c ∈ cs, c.record.name.isSome
  sorted : (names cs).Chain' fun a b => strcmp a b = .lt
  size : n.size = (cs.map (·.record.size)).sum % 2 ^ 64
  hastth : n.hastth = cs.countP fun c => !c.record.isfile || decide (c.record.hastth = 1)

/-- What each record of a tree keeps: a file has no sequence, `hastth` 0 or 1 and a 64-bit
size; a directory has a sequence and satisfies I1-I3. -/
def NodeOk (w : FlView) : Prop :=
  if w.record.isfile then w.record.sub = none ∧ (w.record.hastth = 0 ∨ w.record.hastth = 1) ∧
    w.record.size < 2 ^ 64
  else w.record.sub.isSome ∧ DirOk w.record w.children

theorem DirOk.of_record {n n' : FlNode} {cs : List FlView} (h : DirOk n cs)
    (hs : n'.size = n.size) (ht : n'.hastth = n.hastth) : DirOk n' cs :=
  ⟨h.named, h.sorted, hs ▸ h.size, ht ▸ h.hastth⟩

theorem NodeOk.dir {w : FlView} (h : NodeOk w) (hd : w.record.isfile = false) :
    w.record.sub.isSome ∧ DirOk w.record w.children := by
  unfold NodeOk at h; rwa [if_neg (by simp [hd])] at h

theorem nodeOk_of_dir {w : FlView} (hd : w.record.isfile = false)
    (h : w.record.sub.isSome ∧ DirOk w.record w.children) : NodeOk w := by
  unfold NodeOk; rwa [if_neg (by simp [hd])]

theorem children_eq_nil_of_file {H : FlHeap} {w : FlView} (hv : w.Unfolds H) (hok : NodeOk w)
    (hf : w.record.isfile = true) : w.children = [] := by
  unfold NodeOk at hok
  rw [if_pos hf] at hok
  have := (hv w (mem_subtrees_self w)).2.1
  rw [hok.1] at this
  exact List.map_eq_nil_iff.1 this.symm

/-- The tree invariants of a view. -/
structure Good (v : FlView) : Prop where
  nodup : v.ptrs.Nodup
  nodes : ∀ w ∈ v.subtrees, NodeOk w

theorem Good.sub {v w : FlView} (h : v.Good) (hw : w ∈ v.subtrees) : w.Good where
  nodup := (h.nodup.sublist (List.Sublist.map _ (subtrees_sublist hw)))
  nodes u hu := h.nodes u (subtrees_trans hw hu)

end FlView

end Ncdc
