import Ncdc.FileList.Load

/-!
Saving a file list and loading it back: when every name is XML text, `fl_load` builds from
what `fl_save` wrote a root whose children have the shapes of the saved ones.
-/

namespace Ncdc

open FlView

/-! ### Listings the reader reads to the end -/

theorem xmlChar_of_isDigit {c : Char} (h : c.isDigit = true) : xmlChar c = true := by
  simp only [Char.isDigit, Bool.and_eq_true, decide_eq_true_eq] at h
  have h0 : 48 ≤ c.toNat := h.1
  have h9 : c.toNat ≤ 57 := h.2
  simp only [xmlChar, Bool.or_eq_true, Bool.and_eq_true, decide_eq_true_eq]
  omega

theorem xmlChar_of_mem_base32Alphabet {c : Char} (h : c ∈ base32Alphabet) : xmlChar c = true :=
  List.all_eq_true.1 (by decide : base32Alphabet.all xmlChar = true) c h

theorem readable_nodesList : ∀ {cs : List FlView},
    (∀ c ∈ cs, ∀ k, ∀ x ∈ c.xml.nodes k, x.readable) →
      ∀ k, ∀ x ∈ XmlElem.nodesList k (xmlList cs), x.readable
  | [], _, _, _, hx => by simp at hx
  | c :: cs, h, k, x, hx => by
      simp only [xmlList_cons, XmlElem.nodesList_cons, List.cons_append, List.mem_cons,
        List.mem_append] at hx
      rcases hx with rfl | hx | hx
      · rfl
      · exact h c (List.mem_cons_self c cs) k x hx
      · exact readable_nodesList (fun d hd => h d (List.mem_cons_of_mem c hd)) k x hx

theorem readable_xml : ∀ {t : FlView}, (∀ d ∈ t.subtrees, (d.record.name.getD []).all xmlChar) →
    ∀ k, ∀ x ∈ t.xml.nodes k, x.readable := by
  intro t
  induction t using FlView.induct with
  | node p n cs ih =>
    intro h k x hx
    have hn : (n.name.getD []).all xmlChar = true := h _ (mem_subtrees_self _)
    rw [xml_node] at hx
    split at hx
    · -- a file: its name, digits and base32
      rw [fileElem, XmlElem.nodes_elem, List.isEmpty_nil, if_pos rfl, List.mem_singleton] at hx
      subst hx
      simp only [XmlNode.readable, List.all_cons, List.all_nil, hn, Bool.true_and, Bool.and_true]
      exact Bool.and_eq_true_iff.2
        ⟨List.all_eq_true.2 fun c hc => xmlChar_of_isDigit (isDigit_of_mem_decimal hc),
          List.all_eq_true.2 fun c hc => xmlChar_of_mem_base32Alphabet (mem_base32Encode hc)⟩
    · -- a directory: its start, its children's nodes, its end
      have hel : ∀ e, (XmlNode.element "Directory".toList (("Name".toList, n.name.getD []) ::
          if n.incomplete then [("Incomplete".toList, "1".toList)] else []) e).readable := by
        intro e
        cases n.incomplete <;> simp only [XmlNode.readable, List.all_cons, List.all_nil, hn,
          Bool.false_eq_true, Bool.and_true, if_false, if_true]
        decide
      rw [dirElem, XmlElem.nodes_elem] at hx
      split at hx
      · rw [List.mem_singleton] at hx
        exact hx ▸ hel true
      · simp only [List.cons_append, List.mem_cons, List.mem_append,
          List.not_mem_nil, or_false] at hx
        rcases hx with rfl | hx | rfl | rfl
        · exact hel false
        · exact readable_nodesList (fun c hc => ih c hc fun d hd =>
            h d (subtrees_subset_of_mem hc hd)) (k + 1) x hx
        · rfl
        · rfl

theorem readable_listing {generator cid : List Char} (hgen : generator.all xmlChar = true)
    (hcid : cid.all xmlChar = true) {cs : List FlView}
    (h : ∀ c ∈ cs, ∀ d ∈ c.subtrees, (d.record.name.getD []).all xmlChar) :
    ∀ x ∈ (fileListingElem generator cid "/".toList (xmlList cs)).nodes 0, x.readable := by
  have hel : ∀ e, (XmlNode.element "FileListing".toList [("Version".toList, "1".toList),
      ("Generator".toList, generator), ("CID".toList, cid), ("Base".toList, "/".toList)]
        e).readable := fun e => by
    simp only [XmlNode.readable, List.all_cons, List.all_nil, hgen, hcid, Bool.and_true,
      Bool.true_and]
    decide
  intro x hx
  rw [fileListingElem, XmlElem.nodes_elem] at hx
  split at hx
  · rw [List.mem_singleton] at hx
    exact hx ▸ hel true
  · simp only [List.cons_append, List.mem_cons, List.mem_append,
          List.not_mem_nil, or_false] at hx
    rcases hx with rfl | hx | rfl | rfl
    · exact hel false
    · exact readable_nodesList (fun c hc => readable_xml (h c hc)) 1 x hx
    · rfl
    · rfl

/-! ### The round trip -/

theorem xmlDocNodes_singleton (e : XmlElem) : xmlDocNodes [e] = e.nodes 0 := by
  simp [xmlDocNodes]

/-- Saving a tree with I1-I3 whose files have hashes, at a level reaching every directory, and
loading it into any heap gives a fresh root with I1-I3 whose children have the saved shapes, in
order. The root needs a child, and names, generator and CID must be XML text. -/
theorem fl_save_load_round_trip {H H₀ : FlHeap} {T : FlView} (hT : T.Unfolds H) (hg : T.Good)
    (hdir : T.record.isfile = false) (hroot : T.record.parent = none) (hne : T.children ≠ [])
    (hfiles : ∀ d ∈ T.subtrees, d.record.isfile → d.record.hastth = 1)
    (hnames : ∀ d ∈ T.subtrees, (d.record.name.getD []).all xmlChar)
    {generator cid : List Char} (hgen : generator.all xmlChar = true)
    (hcid : cid.all xmlChar = true) {level : Nat} (hlevel : T.height ≤ level)
    (hb : H₀.Bounded) :
    ∃ doc H' L, flSave H generator (some cid) T.ptr level XmlWriter.empty =
        some (true, ⟨[], doc⟩) ∧
      flLoad H₀ (xmlDocNodes doc) = some (H', some L.ptr) ∧ H'.TreeOk L.ptr L ∧
      L.children.map shape = T.children.map shape := by
  have hsub : ∀ {c}, c ∈ T.children → c.subtrees ⊆ T.subtrees := fun hc =>
    subtrees_trans (mem_subtrees_of_child hc)
  have hdirok := ((hg.nodes T (mem_subtrees_self T)).dir hdir).2
  have hheight : ∀ c ∈ T.children, c.height ≤ level - 1 := by
    obtain ⟨p, n, cs⟩ := T
    intro c hc
    rw [children_node] at hc
    have := height_lt_of_mem hc
    rw [height_node] at hlevel
    omega
  have hsaved : savedList (level - 1) T.children = xmlList T.children :=
    savedList_eq_xmlList fun c hc => saved_eq_xml (hg.sub (mem_subtrees_of_child hc))
      (fun d hd => hfiles d (hsub hc hd)) (hheight c hc)
  obtain ⟨H', L, hload, htree, hshape⟩ := flLoad_listing hb hne
    (fun c hc => ⟨hg.sub (mem_subtrees_of_child hc), hdirok.named c hc,
      fun d hd => hfiles d (hsub hc hd)⟩)
    (List.chain'_iff_pairwise.1 hdirok.sorted) _
    (readable_listing hgen hcid fun c hc d hd => hnames d (hsub hc hd))
  refine ⟨_, H', L, by rw [flSave_view hT hg hdir hroot, hsaved], ?_, htree, hshape⟩
  rw [xmlDocNodes_singleton]
  exact hload

/-- A share with the file `a` of 5 bytes under its root. -/
def oneFileShare : FlHeap :=
  ⟨fun x => if x = 0 then some { FlNode.freshRoot with sub := some [1], size := 5, hastth := 1 }
    else if x = 1 then some { fileA with parent := some 0 } else none, 2⟩

def oneFileTree : FlView :=
  node 0 { FlNode.freshRoot with sub := some [1], size := 5, hastth := 1 }
    [node 1 { fileA with parent := some 0 } []]

theorem oneFileTree_unfolds : oneFileTree.Unfolds oneFileShare := by
  rw [oneFileTree, unfolds_node_iff]
  refine ⟨⟨rfl, rfl, by simp⟩, fun c hc => ?_⟩
  rw [List.mem_singleton] at hc
  subst hc
  rw [unfolds_node_iff]
  exact ⟨⟨rfl, rfl, by simp⟩, by simp⟩

theorem oneFileTree_good : oneFileTree.Good := by
  have hfile : NodeOk (node 1 { fileA with parent := some 0 } []) := by
    unfold NodeOk
    simp [fileA, FlNode.zero]
  have hroot : NodeOk oneFileTree :=
    nodeOk_of_dir rfl ⟨rfl, ⟨by simp [oneFileTree, fileA], by simp [oneFileTree], by decide,
      by decide⟩⟩
  refine ⟨by decide, ?_⟩
  simp only [oneFileTree, subtrees_node, List.flatMap_cons, List.flatMap_nil, List.append_nil,
    List.mem_cons, List.not_mem_nil, or_false, forall_eq_or_imp, forall_eq]
  exact ⟨hroot, hfile⟩

theorem one_file_share_round_trip :
    ∃ doc H' L, flSave oneFileShare "ncdc".toList (some "CID".toList) oneFileTree.ptr 1
        XmlWriter.empty = some (true, ⟨[], doc⟩) ∧
      flLoad ⟨fun _ => none, 0⟩ (xmlDocNodes doc) = some (H', some L.ptr) ∧
      H'.TreeOk L.ptr L ∧ L.children.map shape = oneFileTree.children.map shape := by
  refine fl_save_load_round_trip oneFileTree_unfolds oneFileTree_good rfl rfl
    (by simp [oneFileTree]) ?_ ?_ (by decide) (by decide) ?_ fun _ _ => rfl
  · simp [oneFileTree, fileA, FlNode.freshRoot, FlNode.zero]
  · simp [oneFileTree, fileA, FlNode.freshRoot, FlNode.zero]
    decide
  · simp [oneFileTree, height_node, heightList]

/-- Saving a root without children, with any level, generator and CID, and loading the
document back: `fl_save` writes a self-closing `<FileListing/>`, and `fl_load` frees the
root it allocated and returns `NULL` where it should return an empty root. -/
theorem fl_save_empty_share_unloadable {H : FlHeap} {T : FlView} (hT : T.Unfolds H)
    (hg : T.Good) (hdir : T.record.isfile = false) (hroot : T.record.parent = none)
    (hempty : T.children = []) (generator cid : List Char) (level : Nat) (H₀ : FlHeap) :
    ∃ doc, flSave H generator (some cid) T.ptr level XmlWriter.empty = some (true, ⟨[], doc⟩) ∧
      flLoad H₀ (xmlDocNodes doc) =
        some ((H₀.alloc FlNode.freshRoot).1.free [H₀.next], none) := by
  refine ⟨_, flSave_view hT hg hdir hroot generator cid level, ?_⟩
  rw [xmlDocNodes_singleton, hempty, savedList_nil, fileListingElem, XmlElem.nodes_elem,
    List.isEmpty_nil, if_pos rfl]
  exact flLoad_empty_listing H₀ _

/-- The empty share `fl_local` starts from. -/
def emptyShare : FlHeap := ⟨fun x => if x = 0 then some FlNode.freshRoot else none, 1⟩

theorem empty_share_not_reloaded :
    ∃ doc, flSave emptyShare "ncdc".toList (some "CID".toList) 0 1 XmlWriter.empty =
        some (true, ⟨[], doc⟩) ∧
      flLoad emptyShare (xmlDocNodes doc) =
        some ((emptyShare.alloc FlNode.freshRoot).1.free [1], none) := by
  have ht : emptyShare.TreeOk 0 (node 0 FlNode.freshRoot []) := .fresh rfl
  exact fl_save_empty_share_unloadable ht.unfolds ht.good rfl rfl rfl _ _ _ _

end Ncdc
