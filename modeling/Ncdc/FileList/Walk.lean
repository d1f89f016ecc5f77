import Ncdc.FileList.View
import Mathlib.Data.Finset.Card
import Mathlib.Data.List.Nodup

/-!
The loop over `parent` pointers that `fl_list_add` and `fl_list_remove` use to update the
sizes of a node and its ancestors: on a chain with no pointer twice it updates exactly those.
-/

namespace Ncdc

open FlView

/-- The heap with `f` applied to the size of each record in `S`. -/
def FlHeap.mapSizes (H : FlHeap) (f : Nat → Nat) (S : List Nat) : FlHeap :=
  { H with
    nodes := fun x => if x ∈ S then (H.nodes x).map fun n => { n with size := f n.size }
      else H.nodes x }

@[simp] theorem FlHeap.mapSizes_next (H : FlHeap) (f : Nat → Nat) (S : List Nat) :
    (H.mapSizes f S).next = H.next := rfl

theorem FlHeap.mapSizes_nodes_of_not_mem (H : FlHeap) (f : Nat → Nat) {S : List Nat} {x : Nat}
    (h : x ∉ S) : (H.mapSizes f S).nodes x = H.nodes x := by
  simp [FlHeap.mapSizes, h]

theorem FlHeap.mapSizes_nodes_of_mem (H : FlHeap) (f : Nat → Nat) {S : List Nat} {x : Nat}
    (h : x ∈ S) :
    (H.mapSizes f S).nodes x = (H.nodes x).map fun n => { n with size := f n.size } := by
  simp [FlHeap.mapSizes, h]

theorem FlHeap.mapSizes_nodes_congr {H H' : FlHeap} (f : Nat → Nat) (S : List Nat) {x : Nat}
    (h : H'.nodes x = H.nodes x) : (H'.mapSizes f S).nodes x = (H.mapSizes f S).nodes x := by
  simp [FlHeap.mapSizes, h]

@[simp] theorem FlHeap.mapSizes_nil (H : FlHeap) (f : Nat → Nat) : H.mapSizes f [] = H := rfl

theorem FlHeap.mapSizes_congr (H : FlHeap) (f : Nat → Nat) {S T : List Nat}
    (h : ∀ x, x ∈ S ↔ x ∈ T) : H.mapSizes f S = H.mapSizes f T := by
  simp only [FlHeap.mapSizes, h]

theorem FlHeap.mapSizes_cons (H : FlHeap) (f : Nat → Nat) {S : List Nat} {r : Nat} {n : FlNode}
    (hr : r ∉ S) (hn : H.nodes r = some n) :
    (H.mapSizes f S).set r { n with size := f n.size } = H.mapSizes f (r :: S) := by
  simp only [FlHeap.set, FlHeap.mapSizes, List.mem_cons]
  congr 1; funext x
  by_cases hx : x = r
  · subst hx; simp [hn]
  · simp [hx]

theorem length_le_of_nodup_of_lt {S : List Nat} (hS : S.Nodup) {N : Nat} (hb : ∀ x ∈ S, x < N) :
    S.length ≤ N := by
  rw [← List.toFinset_card_of_nodup hS]
  calc S.toFinset.card ≤ (Finset.range N).card :=
        Finset.card_le_card fun x hx => Finset.mem_range.2 (hb x (List.mem_toFinset.1 hx))
    _ = N := Finset.card_range N

namespace FlView

/-- `x` is `p` or one of its ancestors in the view. -/
def Above (v : FlView) (p x : Nat) : Prop := ∃ w ∈ v.subtrees, w.ptr = x ∧ p ∈ w.ptrs

theorem above_node {r : Nat} {n : FlNode} {cs : List FlView} {p x : Nat} :
    (node r n cs).Above p x ↔ (x = r ∧ p ∈ (node r n cs).ptrs) ∨ ∃ c ∈ cs, c.Above p x := by
  simp only [Above, subtrees_node, List.mem_cons, List.mem_flatMap]
  constructor
  · rintro ⟨w, rfl | ⟨c, hc, hw⟩, rfl, hp⟩
    · exact .inl ⟨rfl, hp⟩
    · exact .inr ⟨c, hc, w, hw, rfl, hp⟩
  · rintro (⟨rfl, hp⟩ | ⟨c, hc, w, hw, rfl, hp⟩)
    · exact ⟨_, .inl rfl, rfl, hp⟩
    · exact ⟨w, .inr ⟨c, hc, hw⟩, rfl, hp⟩

theorem ptrs_subset_of_mem {v w : FlView} (hw : w ∈ v.subtrees) : w.ptrs ⊆ v.ptrs :=
  fun _ hx => by
    obtain ⟨u, hu, rfl⟩ := List.mem_map.1 hx
    exact List.mem_map_of_mem _ (subtrees_trans hw hu)

theorem Above.mem {v : FlView} {p x : Nat} (h : v.Above p x) : x ∈ v.ptrs := by
  obtain ⟨w, hw, rfl, -⟩ := h
  exact List.mem_map_of_mem _ hw

theorem Above.target {v : FlView} {p x : Nat} (h : v.Above p x) : p ∈ v.ptrs := by
  obtain ⟨w, hw, -, hp⟩ := h
  exact ptrs_subset_of_mem hw hp

theorem eq_of_mem_ptrs {cs : List FlView} (h : (cs.flatMap ptrs).Nodup) {c c' : FlView}
    (hc : c ∈ cs) (hc' : c' ∈ cs) {p : Nat} (hp : p ∈ c.ptrs) (hp' : p ∈ c'.ptrs) : c = c' := by
  by_contra hne
  have hd := (List.nodup_flatMap.1 h).2.forall (fun a b h => List.Disjoint.symm h) hc hc' hne
  exact hd hp hp'

end FlView

/-- The records met by following `parent` pointers from `o`, in order, up to a `NULL`
pointer. -/
inductive FlHeap.UpChain (H : FlHeap) : Option Nat → List Nat → Prop
  | top : UpChain H none []
  | up {p : Nat} {n : FlNode} {S : List Nat} :
      H.nodes p = some n → UpChain H n.parent S → UpChain H (some p) (p :: S)

theorem FlHeap.UpChain.congr {H H' : FlHeap} {o : Option Nat} {S : List Nat} (hc : H.UpChain o S)
    (he : ∀ x ∈ S, (H'.nodes x).map FlNode.parent = (H.nodes x).map FlNode.parent) :
    H'.UpChain o S := by
  induction hc with
  | top => exact .top
  | @up p n S hp _ ih =>
      obtain ⟨n', hn', hpar⟩ := Option.map_eq_some'.1 ((he p (List.mem_cons_self _ _)).trans
        (by rw [hp]; rfl))
      exact .up hn' (hpar ▸ ih fun x hx => he x (List.mem_cons_of_mem _ hx))

section Walk

variable (f : Nat → Nat) {H : FlHeap}

theorem flWalkSize_upChain {o : Option Nat} {S : List Nat} (hc : H.UpChain o S) (hS : S.Nodup) :
    ∀ {T : List Nat} (fuel : Nat), (∀ x ∈ S, x ∉ T) → S.length ≤ fuel →
      flWalkSize f (H.mapSizes f T) fuel o = some (H.mapSizes f (T ++ S)) := by
  induction hc with
  | top => intro T fuel _ _; simp [flWalkSize]
  | @up p n S hp _ ih =>
      intro T fuel hdis hfuel
      obtain ⟨hpS, hS⟩ := List.nodup_cons.1 hS
      obtain ⟨k, rfl⟩ : ∃ k, fuel = k + 1 := ⟨fuel - 1, by simp at hfuel; omega⟩
      have hpT : p ∉ T := hdis p (List.mem_cons_self _ _)
      simp only [flWalkSize, FlHeap.mapSizes_nodes_of_not_mem _ _ hpT, hp, Option.bind_eq_bind,
        Option.some_bind]
      rw [FlHeap.mapSizes_cons H f hpT hp, ih hS k (fun x hx => ?_) (by simp at hfuel; omega)]
      · congr 1
        exact FlHeap.mapSizes_congr H f fun x => by simp only [List.mem_cons, List.mem_append]; tauto
      · simpa [ne_of_mem_of_not_mem hx hpS] using hdis x (List.mem_cons_of_mem _ hx)

end Walk

theorem FlView.upChain {H : FlHeap} : ∀ {v : FlView}, v.Unfolds H → v.ptrs.Nodup →
    ∀ {p : Nat}, p ∈ v.ptrs → ∀ {T : List Nat}, H.UpChain v.record.parent T →
    ∃ S : List Nat, (∀ x, x ∈ S ↔ v.Above p x) ∧ S.Nodup ∧ H.UpChain (some p) (S ++ T) := by
  intro v
  induction v using FlView.induct with
  | node r n cs ih =>
      intro hu hnd p hp T hT
      obtain ⟨hr, hrest⟩ := List.nodup_cons.1 (ptrs_node r n cs ▸ hnd)
      have hup : H.UpChain (some r) (r :: T) := .up hu.nodes hT
      rcases List.mem_cons.1 (ptrs_node r n cs ▸ hp) with rfl | hpc
      · -- the chain starts at the view's own node
        refine ⟨[p], fun x => ?_, List.nodup_singleton p, hup⟩
        rw [List.mem_singleton, above_node]
        constructor
        · rintro rfl; exact .inl ⟨rfl, hp⟩
        · rintro (⟨rfl, -⟩ | ⟨c, hc, hab⟩)
          · rfl
          · exact absurd (List.mem_flatMap.2 ⟨c, hc, hab.target⟩) hr
      · -- it reaches the view's node from the child holding `p`
        obtain ⟨c, hc, hpc⟩ := List.mem_flatMap.1 hpc
        have hcp : c.record.parent = some r := (hu _ (mem_subtrees_self _)).2.2 c hc
        obtain ⟨S, hS, hSn, hch⟩ := ih c hc ((unfolds_node_iff.1 hu).2 c hc)
          ((List.nodup_flatMap.1 hrest).1 c hc) hpc (hcp ▸ hup)
        have hrS : r ∉ S := fun h => hr (List.mem_flatMap.2 ⟨c, hc, ((hS r).1 h).mem⟩)
        refine ⟨S ++ [r], fun x => ?_, List.nodup_append.2 ⟨hSn, List.nodup_singleton r,
          List.disjoint_singleton.2 hrS⟩, by simpa using hch⟩
        rw [List.mem_append, List.mem_singleton, hS, above_node]
        constructor
        · rintro (hab | rfl)
          · exact .inr ⟨c, hc, hab⟩
          · exact .inl ⟨rfl, hp⟩
        · rintro (⟨rfl, -⟩ | ⟨c', hc', hab⟩)
          · exact .inr rfl
          · obtain rfl : c' = c := eq_of_mem_ptrs hrest hc' hc hab.target hpc
            exact .inl hab

end Ncdc
