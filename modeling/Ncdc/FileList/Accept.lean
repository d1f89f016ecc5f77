import Ncdc.FileList.RoundTrip

/-!
What `fl_load` accepts: text and unknown elements are passed over, a name its parent already
holds is linked after the equal one, and sizes are neither checked nor kept from wrapping.
-/

namespace Ncdc

/-! ### Nodes the handler passes over -/

/-- The nodes `fl_load_handle` answers with `1` and nothing else: text, and start and end
tags of a name it does not handle (cut to the 49 characters of its buffer). -/
def XmlNode.passed : XmlNode → Bool
  | .text _ => true
  | .element name _ _ => !(name.take 49 == "FileListing".toList ||
      name.take 49 == "Directory".toList || name.take 49 == "File".toList)
  | .endElement name => !(name.take 49 == "Directory".toList ||
      name.take 49 == "FileListing".toList)

theorem flLoadHandle_passed {n : XmlNode} (hn : n.passed) (s : FlLoadState) :
    flLoadHandle s n = some (1, s) := by
  cases n with
  | element name attrs isEmpty =>
      simp only [XmlNode.passed, Bool.not_or, Bool.and_eq_true, Bool.not_eq_true',
        beq_eq_false_iff_ne, ne_eq] at hn
      rw [flLoadHandle, if_neg hn.1.1, if_neg hn.1.2, if_neg hn.2]
  | endElement name =>
      simp only [XmlNode.passed, Bool.not_or, Bool.and_eq_true, Bool.not_eq_true',
        beq_eq_false_iff_ne, ne_eq] at hn
      rw [flLoadHandle, if_neg hn.1, if_neg hn.2]
  | text t => rfl

theorem flLoadLoop_xmlReads_passed {n : XmlNode} (hn : n.passed) (hr : n.readable)
    (post : List XmlNode) : ∀ (pre : List XmlNode) (s : FlLoadState),
      flLoadLoop (xmlReads (pre ++ n :: post)).2 s (xmlReads (pre ++ n :: post)).1 =
        flLoadLoop (xmlReads (pre ++ post)).2 s (xmlReads (pre ++ post)).1
  | [], s => by
      rw [List.nil_append, List.nil_append, xmlReads, if_pos hr]
      exact flLoadLoop_cons_of _ (flLoadHandle_passed hn s)
  | m :: pre, s => by
      simp only [List.cons_append, xmlReads]
      by_cases hm : m.readable
      · simp only [hm, if_true, flLoadLoop, Option.bind_eq_bind]
        cases flLoadHandle s m with
        | none => rfl
        | some r =>
            simp only [Option.some_bind]
            split_ifs
            · rfl
            · exact flLoadLoop_xmlReads_passed hn hr post pre r.2
      · simp [hm]

/-- `fl_load` passes over stray text and unknown elements wherever they stand, accepts a
document with no `FileListing` as an empty root, and reads an empty `Size` as `0`. -/
theorem fl_load_passes_over (H₀ : FlHeap) :
    (∀ pre post n, n.passed → n.readable →
        flLoad H₀ (pre ++ n :: post) = flLoad H₀ (pre ++ post)) ∧
      (∀ ns, (∀ n ∈ ns, n.passed ∧ n.readable) →
        flLoad H₀ ns = some ((H₀.alloc FlNode.freshRoot).1, some H₀.next)) ∧
      ∀ (s : FlLoadState) (attrs : List (List Char × List Char)) (isEmpty : Bool),
        xmlTextReaderGetAttribute attrs "Size".toList = some [] →
        loadFile s attrs isEmpty = loadFile s (("Size".toList, "0".toList) :: attrs) isEmpty := by
  have hins : ∀ pre post n, n.passed → n.readable →
      flLoad H₀ (pre ++ n :: post) = flLoad H₀ (pre ++ post) := fun pre post n hn hr => by
    simp only [flLoad, flLoadLoop_xmlReads_passed hn hr post pre]
  refine ⟨hins, fun ns hns => ?_, fun s attrs isEmpty hsz => ?_⟩
  · induction ns with
    | nil => simp [flLoad, xmlReads, flLoadLoop]
    | cons n ns ih =>
        obtain ⟨hn, hr⟩ := hns n (List.mem_cons_self n ns)
        rw [← List.nil_append (n :: ns), hins [] ns n hn hr, List.nil_append]
        exact ih fun m hm => hns m (List.mem_cons_of_mem n hm)
  · have hN : xmlTextReaderGetAttribute (("Size".toList, "0".toList) :: attrs) "Name".toList =
        xmlTextReaderGetAttribute attrs "Name".toList := rfl
    have hS : xmlTextReaderGetAttribute (("Size".toList, "0".toList) :: attrs) "Size".toList =
        some "0".toList := rfl
    have hT : xmlTextReaderGetAttribute (("Size".toList, "0".toList) :: attrs) "TTH".toList =
        xmlTextReaderGetAttribute attrs "TTH".toList := rfl
    simp only [loadFile, hN, hS, hT, hsz]
    cases xmlTextReaderGetAttribute attrs "Name".toList <;>
      cases xmlTextReaderGetAttribute attrs "TTH".toList <;> rfl

/-- Text inside a listing and an unknown element leave `fl_load` as without them, and an
unknown element alone loads as an empty root. -/
theorem junk_listing_loads :
    flLoad ⟨fun _ => none, 0⟩ [.element "FileListing".toList [] false, .text "junk".toList,
        .endElement "FileListing".toList] =
      flLoad ⟨fun _ => none, 0⟩ [.element "FileListing".toList [] false,
        .endElement "FileListing".toList] ∧
      flLoad ⟨fun _ => none, 0⟩ [.element "Junk".toList [] true] =
        some ((FlHeap.alloc ⟨fun _ => none, 0⟩ FlNode.freshRoot).1, some 0) :=
  ⟨(fl_load_passes_over _).1 [_] _ _ rfl rfl, (fl_load_passes_over _).2.1 _ (by decide)⟩

/-! ### `<File>` elements -/

/-- The attributes of a `<File>`. -/
def fileAttrs (nm size tth : List Char) : List (List Char × List Char) :=
  [("Name".toList, nm), ("Size".toList, size), ("TTH".toList, tth)]

theorem loadFile_fileAttrs {s : FlLoadState} (hfl : s.havefl = true) {nm size tth : List Char}
    (hs : size.all Char.isDigit = true) (ht : tth.length = 39)
    (hb : tth.all (· ∈ base32Alphabet) = true) :
    loadFile s (fileAttrs nm size tth) true =
      (loadAdd s (loadedFile nm (gAsciiStrtoull size) (Tth.ofBytes (base32Decode tth)))).bind
        fun r => some (1, { s with heap := r.1, cur := some r.2, newdir := false }) := by
  have hN : xmlTextReaderGetAttribute (fileAttrs nm size tth) "Name".toList = some nm := rfl
  have hS : xmlTextReaderGetAttribute (fileAttrs nm size tth) "Size".toList = some size := rfl
  have hT : xmlTextReaderGetAttribute (fileAttrs nm size tth) "TTH".toList = some tth := rfl
  simp only [loadFile, hfl, hN, hS, hT, hs, ht, hb, Bool.not_true, Bool.or_false, ne_eq,
    not_true_eq_false, decide_False, Bool.false_or, Bool.false_eq_true, if_false]
  rfl

/-- The `<File>` element of a name, a `Size` text and a `TTH` text. -/
def fileNode (f : List Char × List Char × List Char) : XmlNode :=
  .element "File".toList (fileAttrs f.1 f.2.1 f.2.2) true

/-- A listing of files directly under the root, each given by its name, `Size` text and `TTH`
text. -/
def fileListing (fs : List (List Char × List Char × List Char)) : List XmlNode :=
  .element "FileListing".toList [] false :: fs.map fileNode ++ [.endElement "FileListing".toList]

theorem fileListing_readable {fs : List (List Char × List Char × List Char)}
    (hfs : ∀ f ∈ fs, f.1.all xmlChar = true ∧ f.2.1.all Char.isDigit = true ∧
      f.2.2.all (· ∈ base32Alphabet) = true) :
    ∀ n ∈ fileListing fs, n.readable := by
  have hd : ∀ {l : List Char}, l.all Char.isDigit → l.all xmlChar := fun h =>
    List.all_eq_true.2 fun c hc => xmlChar_of_isDigit (List.all_eq_true.1 h c hc)
  have hb : ∀ {l : List Char}, l.all (· ∈ base32Alphabet) → l.all xmlChar := fun h =>
    List.all_eq_true.2 fun c hc => xmlChar_of_mem_base32Alphabet (by
      simpa using List.all_eq_true.1 h c hc)
  intro n hn
  simp only [fileListing, List.cons_append, List.mem_cons, List.mem_append, List.mem_map,
    List.mem_singleton, List.not_mem_nil, or_false] at hn
  rcases hn with rfl | ⟨f, hf, rfl⟩ | rfl
  · rfl
  · obtain ⟨h₁, h₂, h₃⟩ := hfs f hf
    simp [fileNode, XmlNode.readable, fileAttrs, h₁, hd h₂, hb h₃]
  · rfl

/-! ### Names already taken -/

theorem flListAdd_detached (H : FlHeap) (par cur : Nat) (pn c : FlNode) (sub : List Nat)
    (pos : Nat) (hne : cur ≠ par) (hp : H.nodes par = some pn) (hpar : pn.parent = none)
    (hsub : pn.sub = some sub) (hc : H.nodes cur = some c)
    (hpos : flSearch (H.set cur { c with parent := some par }) { c with parent := some par } sub =
      some pos) (hnext : 0 < H.next) :
    ∃ H', flListAdd H (some par) cur = some H' ∧ H'.next = H.next ∧
      (H'.nodes par).bind FlNode.sub = some (sub.take pos ++ cur :: sub.drop pos) ∧
      (H'.nodes par).map FlNode.parent = some none ∧
      H'.nodes cur = some { c with parent := some par } ∧
      ∀ x, x ≠ par → x ≠ cur → H'.nodes x = H.nodes x := by
  obtain ⟨n, hn⟩ : ∃ n, H.next = n + 1 := ⟨H.next - 1, by omega⟩
  let c' : FlNode := { c with parent := some par }
  let P : FlNode := { pn with
    parent := none
    sub := some (sub.take pos ++ cur :: sub.drop pos)
    hastth := if c'.countsTth then pn.hastth + 1 else pn.hastth }
  refine ⟨((H.set cur c').set par P).set par { P with size := (P.size + c'.size) % 2 ^ 64 }, ?_,
    rfl, by simp [P], by simp [P, hpar], by simp [c', FlHeap.set_nodes_ne _ _ hne],
    fun x h₁ h₂ => ?_⟩
  · simp only [flListAdd, hc, Option.bind_eq_bind, Option.some_bind,
      FlHeap.set_nodes_ne _ _ hne.symm, hp, hsub, hpos, FlHeap.set_next, hn, flWalkSize,
      FlHeap.set_nodes_self, hpar]
  · simp [FlHeap.set_nodes_ne _ _ h₁, FlHeap.set_nodes_ne _ _ h₂]

theorem flLoadHandle_fileAttrs {s : FlLoadState} (hfl : s.havefl = true) {nm size tth : List Char}
    (hs : size.all Char.isDigit = true) (ht : tth.length = 39)
    (hb : tth.all (· ∈ base32Alphabet) = true) {parent : Option Nat} {H : FlHeap}
    (hp : loadParent s (s.heap.alloc
      (loadedFile nm (gAsciiStrtoull size) (Tth.ofBytes (base32Decode tth)))).1 = some parent)
    (ha : flListAdd (s.heap.alloc
      (loadedFile nm (gAsciiStrtoull size) (Tth.ofBytes (base32Decode tth)))).1 parent
        s.heap.next = some H) :
    flLoadHandle s (.element "File".toList (fileAttrs nm size tth) true) =
      some (1, { s with heap := H, cur := some s.heap.next, newdir := false }) := by
  rw [flLoadHandle_element_file, loadFile_fileAttrs hfl hs ht hb]
  simp [loadAdd, hp, ha]

/-- A listing with two files of one name. -/
def twoFiles (nm size₁ tth₁ size₂ tth₂ : List Char) : List XmlNode :=
  [.element "FileListing".toList [] false, .element "File".toList (fileAttrs nm size₁ tth₁) true,
    .element "File".toList (fileAttrs nm size₂ tth₂) true, .endElement "FileListing".toList]

theorem twoFiles_readable {nm size₁ tth₁ size₂ tth₂ : List Char} (hnm : nm.all xmlChar = true)
    (hs₁ : size₁.all Char.isDigit = true) (hs₂ : size₂.all Char.isDigit = true)
    (hb₁ : tth₁.all (· ∈ base32Alphabet) = true) (hb₂ : tth₂.all (· ∈ base32Alphabet) = true) :
    ∀ n ∈ twoFiles nm size₁ tth₁ size₂ tth₂, n.readable :=
  @fileListing_readable [(nm, size₁, tth₁), (nm, size₂, tth₂)] fun f hf => by
    rcases List.mem_pair.1 hf with rfl | rfl
    exacts [⟨hnm, hs₁, hb₁⟩, ⟨hnm, hs₂, hb₂⟩]

/-- Two `<File>` elements of one name in one directory: `fl_load` accepts the listing with both
children under that name, and `fl_list_remove` of the first then fails its `g_assert`. -/
theorem fl_load_accepts_duplicate_names (H₀ : FlHeap) (nm size₁ tth₁ size₂ tth₂ : List Char)
    (hnm : nm.all xmlChar = true) (hs₁ : size₁.all Char.isDigit = true) (ht₁ : tth₁.length = 39)
    (hb₁ : tth₁.all (· ∈ base32Alphabet) = true)
    (hs₂ : size₂.all Char.isDigit = true) (ht₂ : tth₂.length = 39)
    (hb₂ : tth₂.all (· ∈ base32Alphabet) = true) :
    ∃ H' r₁ r₂, flLoad H₀ (twoFiles nm size₁ tth₁ size₂ tth₂) = some (H', some H₀.next) ∧
      (H'.nodes H₀.next).bind FlNode.sub = some [H₀.next + 1, H₀.next + 2] ∧
      H'.nodes (H₀.next + 1) = some r₁ ∧ H'.nodes (H₀.next + 2) = some r₂ ∧
      r₁.name = some nm ∧ r₂.name = some nm ∧ flListRemove H' (H₀.next + 1) = none := by
  set r := H₀.next
  set H₁ := (H₀.alloc FlNode.freshRoot).1
  set rec₁ := loadedFile nm (gAsciiStrtoull size₁) (Tth.ofBytes (base32Decode tth₁))
  set rec₂ := loadedFile nm (gAsciiStrtoull size₂) (Tth.ofBytes (base32Decode tth₂))
  -- the first file goes under the root
  obtain ⟨H₂, hadd₁, hn₂, hsub₂, hpar₂, hp₁, hfr₂⟩ := flListAdd_detached (H₁.alloc rec₁).1
    r (r + 1) FlNode.freshRoot rec₁ [] 0 (by omega)
    (by rw [FlHeap.alloc_nodes_ne _ _ (by simp [H₁, r])]; exact FlHeap.alloc_nodes_self _ _)
    rfl rfl
    (FlHeap.alloc_nodes_self _ _) rfl (by simp)
  obtain ⟨pn₂, hr₂, hpn₂⟩ := Option.bind_eq_some.1 hsub₂
  have hnext₂ : H₂.next = r + 2 := hn₂
  -- the second goes after it: the search passes over the equal name
  obtain ⟨H₃, hadd₂, -, hsub₃, -, hp₂, hfr₃⟩ := flListAdd_detached (H₂.alloc rec₂).1
    r (r + 2) pn₂ rec₂ [r + 1] 1 (by omega)
    (by rw [FlHeap.alloc_nodes_ne _ _ (by omega)]; exact hr₂)
    (by simpa [hr₂] using hpar₂) (by simpa using hpn₂)
    (by simpa [hn₂, H₁, r] using FlHeap.alloc_nodes_self H₂ rec₂)
    (by simp [flSearch, hp₁, FlHeap.set_nodes_ne, FlHeap.alloc_nodes_ne, hn₂, H₁, r, flListCmp,
      rec₁, rec₂, loadedFile]) (by simp [hn₂, H₁])
  obtain ⟨pn₃, hr₃, hpn₃⟩ := Option.bind_eq_some.1 hsub₃
  have hp₁' : H₃.nodes (r + 1) = some { rec₁ with parent := some r } := by
    rw [hfr₃ _ (by omega) (by omega), FlHeap.alloc_nodes_ne _ _ (by simp [hn₂, H₁, r]), hp₁]
  -- the loop reads the listing to its end
  have hstep₁ : flLoadHandle ⟨H₁, true, true, some r⟩
      (.element "File".toList (fileAttrs nm size₁ tth₁) true) =
      some (1, ⟨H₂, true, false, some (r + 1)⟩) :=
    flLoadHandle_fileAttrs rfl hs₁ ht₁ hb₁ rfl hadd₁
  have hstep₂ : flLoadHandle ⟨H₂, true, false, some (r + 1)⟩
      (.element "File".toList (fileAttrs nm size₂ tth₂) true) =
      some (1, ⟨H₃, true, false, some (r + 2)⟩) := by
    rw [flLoadHandle_fileAttrs rfl hs₂ ht₂ hb₂
      (show loadParent _ _ = some (some r) by
        simp [loadParent, FlHeap.alloc_nodes_ne _ _ (show r + 1 ≠ H₂.next by omega), hp₁])
      (by simpa only [hnext₂] using hadd₂), hnext₂]
  have hloop : flLoadLoop 0 ⟨H₁, false, true, some r⟩ (twoFiles nm size₁ tth₁ size₂ tth₂) =
      some (0, ⟨H₃, true, false, some (r + 2)⟩) := by
    rw [twoFiles, flLoadLoop_cons_of _ (flLoadHandle_fileListing_start [] rfl),
      flLoadLoop_cons_of _ hstep₁, flLoadLoop_cons_of _ hstep₂,
      flLoadLoop_cons_stop _ flLoadHandle_fileListing_end le_rfl]
  refine ⟨H₃, _, _, ?_, by simpa [hr₃] using hpn₃, hp₁', hp₂, rfl, rfl, ?_⟩
  · simp only [flLoad, xmlReads_of_readable (twoFiles_readable hnm hs₁ hs₂ hb₁ hb₂),
      FlHeap.alloc_snd, hloop, Option.bind_eq_bind,
      Option.some_bind]
    rfl
  · simp only [flListRemove, hp₁', loadedFile, FlHeap.set_next, Option.bind_eq_bind,
      Option.some_bind, hr₃, hpn₃, List.take_succ_cons, List.take_nil, List.drop_succ_cons,
      List.drop_nil, List.singleton_append, flSearch, flListCmp, Option.pure_def, hp₂,
      Option.map_some', zero_add, strcmp_self, reduceCtorEq, ↓reduceIte, Nat.reduceAdd,
      Nat.add_one_sub_one, List.getElem?_cons_succ, List.getElem?_cons_zero, Option.some.injEq,
      add_right_inj, OfNat.ofNat_ne_one, rec₁, rec₂]

def zeroTthText : List Char := List.replicate 39 'A'

/-- Two files named `a` load under one root, and the first cannot be removed. -/
theorem twin_files_loaded :
    ∃ H' r₁ r₂, flLoad ⟨fun _ => none, 0⟩
        (twoFiles "a".toList "1".toList zeroTthText "2".toList zeroTthText) = some (H', some 0) ∧
      (H'.nodes 0).bind FlNode.sub = some [0 + 1, 0 + 2] ∧
      H'.nodes (0 + 1) = some r₁ ∧ H'.nodes (0 + 2) = some r₂ ∧
      r₁.name = some "a".toList ∧ r₂.name = some "a".toList ∧ flListRemove H' (0 + 1) = none :=
  fl_load_accepts_duplicate_names _ _ _ _ _ _ (by decide) (by decide) (by decide) (by decide)
    (by decide) (by decide) (by decide)

/-! ### Sizes -/

theorem loadsNodes_fileAttrs {nm size tth : List Char} (hs : size.all Char.isDigit = true)
    (ht : tth.length = 39) (hb : tth.all (· ∈ base32Alphabet) = true) :
    LoadsNodes [.element "File".toList (fileAttrs nm size tth) true] nm
      (.file (some nm) (gAsciiStrtoull size) (Tth.ofBytes (base32Decode tth)) 1) := by
  intro last s V u rest hok hfl hu hudir hat hlt
  set rec := loadedFile nm (gAsciiStrtoull size) (Tth.ofBytes (base32Decode tth))
  obtain ⟨H', hadd, hok'⟩ := loadAdd_view rec hok hu hudir hat rfl
    (by simpa [FlView.NodeOk, rec, loadedFile, FlNode.zero] using gAsciiStrtoull_lt size) rfl hlt
  obtain ⟨hext, -⟩ := add_extends (V := V) (c := FlView.node s.heap.next rec []) hu hlt
  have hh : flLoadHandle s (.element "File".toList (fileAttrs nm size tth) true) =
      some (1, ⟨H', true, false, some s.heap.next⟩) := by
    rw [flLoadHandle_element_file, loadFile_fileAttrs hfl hs ht hb, hadd, Option.some_bind, hfl]
  refine ⟨H', _, (FlView.node s.heap.next rec []).reparent (some u.ptr), _,
    flLoadLoop_cons_of rest hh, hok', hext, ?_, rfl⟩
  simp [FlView.shape_node, FlView.reparent, rec, loadedFile]

/-- A listing of files with ascending names and `Size`s of digits of any length loads as a root with
I1-I3 whose children are the files in order. Each size is saturated at `G_MAXUINT64`, and the root's
is their sum modulo `2 ^ 64`. -/
theorem fl_load_wraps_sizes {H₀ : FlHeap} (hb : H₀.Bounded)
    (fs : List (List Char × List Char × List Char))
    (hfs : ∀ f ∈ fs, f.1.all xmlChar = true ∧ f.2.1.all Char.isDigit = true ∧
      f.2.2.length = 39 ∧ f.2.2.all (· ∈ base32Alphabet) = true)
    (hsort : (fs.map Prod.fst).Chain' fun a b => strcmp a b = .lt) :
    ∃ H' L, flLoad H₀ (fileListing fs) = some (H', some L.ptr) ∧ H'.TreeOk L.ptr L ∧
      L.children.map FlView.shape = fs.map (fun f => .file (some f.1)
        (min (digitsValue f.2.1) (2 ^ 64 - 1)) (Tth.ofBytes (base32Decode f.2.2)) 1) ∧
      L.record.size = (fs.map fun f => min (digitsValue f.2.1) (2 ^ 64 - 1)).sum % 2 ^ 64 := by
  obtain ⟨s', L, ts, g, hrun, hs', -, -, hext, hshape⟩ :=
    loadsNodes_list (fun f => [fileNode f]) Prod.fst
      (fun f => .file (some f.1) (gAsciiStrtoull f.2.1) (Tth.ofBytes (base32Decode f.2.2)) 1)
      (fun f hf => loadsNodes_fileAttrs (hfs f hf).2.1 (hfs f hf).2.2.1 (hfs f hf).2.2.2)
      0 ⟨_, true, true, some H₀.next⟩ _ _ [.endElement "FileListing".toList]
      (loadOk_freshRoot hb) rfl (FlView.mem_subtrees_self _) rfl (.inl ⟨rfl, rfl⟩)
      (by simpa using List.chain'_iff_pairwise.1 hsort)
  rw [FlView.graft_ptr] at hs'
  have hloop : flLoadLoop 0 ⟨(H₀.alloc FlNode.freshRoot).1, false, true, some H₀.next⟩
      (fileListing fs) = some (0, s') := by
    rw [fileListing, List.map_eq_flatMap, List.cons_append, flLoadLoop_cons_of _
        (flLoadHandle_fileListing_start (s := ⟨_, false, true, some H₀.next⟩) [] rfl), hrun,
      flLoadLoop_cons_stop _ flLoadHandle_fileListing_end le_rfl]
  have hchildren : L.children.map FlView.shape = fs.map (fun f => .file (some f.1)
      (min (digitsValue f.2.1) (2 ^ 64 - 1)) (Tth.ofBytes (base32Decode f.2.2)) 1) := by
    rw [hext.children, FlView.children_node, List.nil_append, hshape]
    exact List.map_congr_left fun f hf => by rw [gAsciiStrtoull_digits (hfs f hf).2.1]
  refine ⟨s'.heap, L, ?_, .of_unfolds rfl hs'.unfolds hs'.good hs'.detached, hchildren, ?_⟩
  · rw [hext.ptr]
    simp only [flLoad, xmlReads_of_readable (fileListing_readable fun f hf =>
      ⟨(hfs f hf).1, (hfs f hf).2.1, (hfs f hf).2.2.2⟩), FlHeap.alloc_snd, hloop,
      Option.bind_eq_bind, Option.some_bind]
    rfl
  · obtain ⟨-, hdir⟩ := (hs'.good.nodes L (FlView.mem_subtrees_self L)).dir hext.isfile
    rw [hdir.size, show L.children.map (·.record.size) =
      (L.children.map FlView.shape).map FlShape.size by simp, hchildren, List.map_map]
    rfl

/-- A listing of `a` with a `Size` of `2 ^ 64` and `b` with `1` loads: `a` is given
`G_MAXUINT64`, and the root's size wraps to `0`. -/
theorem oversized_listing_wraps :
    ∃ H' L, flLoad ⟨fun _ => none, 0⟩ (fileListing [("a".toList, "18446744073709551616".toList,
        zeroTthText), ("b".toList, "1".toList, zeroTthText)]) = some (H', some L.ptr) ∧
      H'.TreeOk L.ptr L ∧
      L.children.map FlView.shape = [.file (some "a".toList) (2 ^ 64 - 1)
        (Tth.ofBytes (base32Decode zeroTthText)) 1,
        .file (some "b".toList) 1 (Tth.ofBytes (base32Decode zeroTthText)) 1] ∧
      L.record.size = 0 := by
  obtain ⟨H', L, hload, hok, hshape, hsize⟩ := fl_load_wraps_sizes
    (fun _ _ => rfl : FlHeap.Bounded ⟨fun _ => none, 0⟩)
    [("a".toList, "18446744073709551616".toList, zeroTthText),
      ("b".toList, "1".toList, zeroTthText)] (by decide) (List.chain'_pair.2 (by decide))
  have hv : digitsValue "18446744073709551616".toList = 2 ^ 64 := by decide
  have h1 : digitsValue "1".toList = 1 := by decide
  refine ⟨H', L, hload, hok, ?_, ?_⟩
  · rw [hshape]; simp only [List.map_cons, List.map_nil, hv, h1]; norm_num
  · rw [hsize]; simp only [List.map_cons, List.map_nil, hv, h1]; norm_num

end Ncdc
