import Ncdc.FileList.Save
import Ncdc.FileList.Edit
import Ncdc.FileList.Copy
import Ncdc.FileList.Tree

/-!
Reading a file list back: `fl_load_handle` and `fl_load`. For the listing of a tree with
I1-I3 each element is loaded as a copy of its node, and the heap holds a tree with I1-I3 after
every step.
-/

namespace Ncdc

open FlView

/-! ### The handler -/

/-- The state `fl_load` passes to `fl_load_handle`. -/
structure FlLoadState where
  heap : FlHeap
  havefl : Bool
  newdir : Bool
  cur : Option Nat

/-- `*newdir ? *cur : (*cur)->parent`, read in the heap `H`. -/
def loadParent (s : FlLoadState) (H : FlHeap) : Option (Option Nat) := do
  let cur ← s.cur
  if s.newdir then some (some cur) else (H.nodes cur).map FlNode.parent

/-- Allocate `rec` and link it with `fl_list_add` under `loadParent`. -/
def loadAdd (s : FlLoadState) (rec : FlNode) : Option (FlHeap × Nat) := do
  let (H, tmp) := s.heap.alloc rec
  let parent ← loadParent s H
  let H ← flListAdd H parent tmp
  some (H, tmp)

/-- The record `fl_load_handle` makes for a `<Directory>`. -/
def loadedDir (nm : List Char) (incomplete : Bool) : FlNode :=
  { FlNode.zero with name := some nm, incomplete := incomplete, sub := some [] }

/-- The record `fl_load_handle` makes for a `<File>`. -/
def loadedFile (nm : List Char) (size : Nat) (tth : Tth) : FlNode :=
  { FlNode.zero with name := some nm, isfile := true, size := size, hastth := 1, tth := tth }

/-- `<Directory ..>`: it needs `<FileListing>` open, a `Name`, and an `Incomplete` of `0` or
`1` if any. -/
def loadDirectory (s : FlLoadState) (attrs : List (List Char × List Char)) (isEmpty : Bool) :
    Option (Int × FlLoadState) :=
  if !s.havefl then some (-1, s)
  else
    match xmlTextReaderGetAttribute attrs "Name".toList with
    | none => some (-1, s)
    | some nm =>
        let inc := xmlTextReaderGetAttribute attrs "Incomplete".toList
        if inc.isSome && inc ≠ some "0".toList && inc ≠ some "1".toList then some (-1, s)
        else do
          let (H, tmp) ← loadAdd s (loadedDir nm (inc.bind List.head? = some '1'))
          some (1, { s with heap := H, cur := some tmp, newdir := !isEmpty })

/-- `<File .. />`: it needs `<FileListing>` open, no content, a `Name`, a `Size` of digits
only, and a `TTH` of 39 base32 characters. -/
def loadFile (s : FlLoadState) (attrs : List (List Char × List Char)) (isEmpty : Bool) :
    Option (Int × FlLoadState) :=
  if !s.havefl || !isEmpty then some (-1, s)
  else
    match xmlTextReaderGetAttribute attrs "Name".toList,
      xmlTextReaderGetAttribute attrs "Size".toList,
      xmlTextReaderGetAttribute attrs "TTH".toList with
    | some nm, some size, some tth =>
        if !size.all Char.isDigit then some (-1, s)
        else if tth.length ≠ 39 || !tth.all (· ∈ base32Alphabet) then some (-1, s)
        else do
          let (H, tmp) ← loadAdd s (loadedFile nm (gAsciiStrtoull size)
            (Tth.ofBytes (base32Decode tth)))
          some (1, { s with heap := H, cur := some tmp, newdir := false })
    | _, _, _ => some (-1, s)

/-- `fl_load_handle`: `-1` rejects the document, `0` ends the reading, `1` goes on. The
element name is cut to the 49 characters of its buffer. -/
def flLoadHandle (s : FlLoadState) : XmlNode → Option (Int × FlLoadState)
  | .element name attrs isEmpty =>
      if name.take 49 = "FileListing".toList then
        if s.havefl || isEmpty then some (-1, s) else some (1, { s with havefl := true })
      else if name.take 49 = "Directory".toList then loadDirectory s attrs isEmpty
      else if name.take 49 = "File".toList then loadFile s attrs isEmpty
      else some (1, s)
  | .endElement name =>
      if name.take 49 = "Directory".toList then
        if !s.newdir then do
          let cur ← s.cur
          let c ← s.heap.nodes cur
          some (1, { s with cur := c.parent })
        else some (1, { s with newdir := false })
      else if name.take 49 = "FileListing".toList then some (0, s)
      else some (1, s)
  | .text _ => some (1, s)

/-- The loop of `fl_load`: the reader's nodes, then what its last read returned. -/
def flLoadLoop (last : Int) : FlLoadState → List XmlNode → Option (Int × FlLoadState)
  | s, [] => some (last, s)
  | s, n :: ns => do
      let (ret, s) ← flLoadHandle s n
      if ret ≤ 0 then some (ret, s) else flLoadLoop last s ns

/-- `fl_load(file, err)` on a document with these nodes: the heap, and the root, or `NULL`
after freeing what was built when the reading failed. -/
def flLoad (H : FlHeap) (nodes : List XmlNode) : Option (FlHeap × Option Nat) := do
  let (H, root) := H.alloc FlNode.freshRoot
  let (reads, last) := xmlReads nodes
  let (ret, s) ← flLoadLoop last ⟨H, false, true, some root⟩ reads
  if ret < 0 then do
    let H ← flListFree s.heap s.heap.next root
    some (H, none)
  else some (s.heap, some root)

/-! ### Shapes -/

/-- A node without its pointers: what a listing records of it. -/
inductive FlShape
  | file (name : Option (List Char)) (size : Nat) (tth : Tth) (hastth : Int)
  | dir (name : Option (List Char)) (incomplete : Bool) (size : Nat) (hastth : Int)
      (children : List FlShape)

/-- The size a shape records. -/
def FlShape.size : FlShape → Nat
  | .file _ s _ _ => s
  | .dir _ _ s _ _ => s

/-- Whether a parent's `hastth` counts the node: a directory, or a file with `hastth = 1`. -/
def FlShape.counted : FlShape → Bool
  | .file _ _ _ h => decide (h = 1)
  | .dir _ _ _ _ _ => true

mutual
/-- The shape of a view. -/
def FlView.shape : FlView → FlShape
  | node _ n cs =>
      if n.isfile then .file n.name n.size n.tth n.hastth
      else .dir n.name n.incomplete n.size n.hastth (FlView.shapeList cs)
/-- The shapes of a list of views. -/
def FlView.shapeList : List FlView → List FlShape
  | [] => []
  | c :: cs => c.shape :: FlView.shapeList cs
end

theorem FlView.shapeList_eq : ∀ cs : List FlView, FlView.shapeList cs = cs.map shape
  | [] => by rw [FlView.shapeList]; rfl
  | c :: cs => by rw [FlView.shapeList, FlView.shapeList_eq cs]; rfl

theorem FlView.shape_node (p : Nat) (n : FlNode) (cs : List FlView) :
    (node p n cs).shape = if n.isfile then .file n.name n.size n.tth n.hastth
      else .dir n.name n.incomplete n.size n.hastth (cs.map shape) := by
  rw [FlView.shape, FlView.shapeList_eq]

@[simp] theorem FlView.size_shape (c : FlView) : c.shape.size = c.record.size := by
  cases c; rw [FlView.shape_node]; split <;> rfl

@[simp] theorem FlView.counted_shape (c : FlView) :
    c.shape.counted = (!c.record.isfile || decide (c.record.hastth = 1)) := by
  cases c; rw [FlView.shape_node]; split <;> simp_all [FlShape.counted]

theorem FlView.name_of_shape_eq {a b : FlView} (h : a.shape = b.shape) :
    a.record.name = b.record.name := by
  cases a; cases b
  rw [FlView.shape_node, FlView.shape_node] at h
  split at h <;> split at h <;> simp_all

theorem FlView.shape_eq_of_dir {a b : FlView} (ha : NodeOk a) (hb : NodeOk b)
    (hfa : a.record.isfile = false) (hfb : b.record.isfile = false)
    (hname : a.record.name = b.record.name) (hinc : a.record.incomplete = b.record.incomplete)
    (hcs : a.children.map shape = b.children.map shape) : a.shape = b.shape := by
  obtain ⟨-, da⟩ := ha.dir hfa
  obtain ⟨-, db⟩ := hb.dir hfb
  have hsize : ∀ cs : List FlView, (cs.map (·.record.size)).sum = ((cs.map shape).map FlShape.size).sum :=
    fun cs => by simp [List.map_map, Function.comp_def]
  have hcount : ∀ cs : List FlView,
      cs.countP (fun c => !c.record.isfile || decide (c.record.hastth = 1)) =
        (cs.map shape).countP FlShape.counted := fun cs => by
    simp [List.countP_map, Function.comp_def]
  cases a; cases b
  simp only [record_node, children_node] at *
  rw [FlView.shape_node, FlView.shape_node, if_neg (by simp [hfa]), if_neg (by simp [hfb]),
    da.size, db.size, da.hastth, db.hastth, hsize, hsize, hcount, hcount, hcs, hname, hinc]

/-! ### The loader's invariant -/

/-- What the loader keeps true of the heap: it holds `V`, a detached tree with I1-I3, and
nothing lies past the allocation counter. -/
structure LoadOk (H : FlHeap) (V : FlView) : Prop where
  unfolds : V.Unfolds H
  good : V.Good
  detached : V.record.parent = none
  bounded : H.Bounded

/-- Where the next element goes: under `u`, which `cur` is when `newdir` is set, and whose
child `cur` is otherwise. -/
def FlLoadState.At (s : FlLoadState) (u : FlView) : Prop :=
  (s.newdir = true ∧ s.cur = some u.ptr) ∨
    (s.newdir = false ∧ ∃ c ∈ u.children, s.cur = some c.ptr)

/-- `u'` is the directory `u` with the nodes `ts` linked in after its children. -/
structure Extends (u u' : FlView) (ts : List FlView) : Prop where
  ptr : u'.ptr = u.ptr
  children : u'.children = u.children ++ ts
  name : u'.record.name = u.record.name
  isfile : u'.record.isfile = u.record.isfile
  incomplete : u'.record.incomplete = u.record.incomplete

theorem Extends.refl (u : FlView) : Extends u u [] :=
  ⟨rfl, (List.append_nil _).symm, rfl, rfl, rfl⟩

theorem Extends.trans {u u₁ u₂ : FlView} {ts₁ ts₂ : List FlView} (h₁ : Extends u u₁ ts₁)
    (h₂ : Extends u₁ u₂ ts₂) : Extends u u₂ (ts₁ ++ ts₂) :=
  ⟨h₂.ptr.trans h₁.ptr, by rw [h₂.children, h₁.children, List.append_assoc],
    h₂.name.trans h₁.name, h₂.isfile.trans h₁.isfile, h₂.incomplete.trans h₁.incomplete⟩

theorem extends_addChild {u c : FlView}
    (h : ∀ a ∈ names u.children, strcmp a (c.record.name.getD []) = .lt) :
    Extends u (addChild u c) [c.reparent (some u.ptr)] := by
  have hpos : addPos u c = u.children.length := by
    rw [addPos, searchPos, List.takeWhile_eq_self_iff.2 fun a ha => by simp [h a ha], names,
      List.length_map]
  refine ⟨rfl, ?_, rfl, rfl, rfl⟩
  simp [addChild, hpos]

theorem Extends.graft_last {u A e e' : FlView} {g : Nat → Nat} (h : Extends u A [e])
    (hnd : A.ptrs.Nodup) : Extends u (A.graft e.ptr e' g) [e'] := by
  obtain ⟨x, r, ch⟩ := A
  obtain ⟨hp, hch, hn, hf, hi⟩ := h
  simp only [ptr_node, children_node, record_node] at hp hch hn hf hi
  subst hch
  rw [ptrs_node, List.nodup_cons, List.flatMap_append, List.nodup_append] at hnd
  have he : e.ptr ∈ [e].flatMap ptrs := by simp [ptr_mem_ptrs]
  have hx : x ≠ e.ptr := fun h => hnd.1 (List.mem_append_right _ (h ▸ he))
  have hout : ∀ c ∈ u.children, c.graft e.ptr e' g = c := fun c hc =>
    graft_of_not_mem fun h => hnd.2.2.2 (List.mem_flatMap.2 ⟨c, hc, h⟩) he
  have hlast : e.graft e.ptr e' g = e' := by
    cases e with
    | node y m ds => rw [ptr_node, graft_node, if_pos rfl]
  rw [graft_node, if_neg hx, if_pos (ptrs_subset_of_child
      (List.mem_append_right _ (List.mem_singleton_self e)) (ptr_mem_ptrs e)),
    List.map_append, List.map_congr_left hout, List.map_id', List.map_singleton, hlast]
  exact ⟨hp, rfl, hn, hf, hi⟩

/-! ### One node at a time -/

section Steps

variable {s : FlLoadState} {V u : FlView}

theorem FlLoadState.At.parent {H : FlHeap} (hV : V.Unfolds H) (hu : u ∈ V.subtrees)
    (hat : s.At u) : loadParent s H = some (some u.ptr) := by
  rcases hat with ⟨hn, hc⟩ | ⟨hn, c, hc, hcur⟩
  · simp [loadParent, hn, hc]
  · have hcv : c ∈ V.subtrees := subtrees_trans hu (mem_subtrees_of_child hc)
    simp [loadParent, hn, hcur, (hV.sub hcv).nodes, (hV u hu).2.2 c hc]

theorem loadAdd_view (rec : FlNode) {nm : List Char} (hs : LoadOk s.heap V)
    (hu : u ∈ V.subtrees) (hudir : u.record.isfile = false) (hat : s.At u)
    (hsub : rec.sub.getD [] = []) (hok : NodeOk (node s.heap.next rec []))
    (hname : rec.name = some nm) (hlt : ∀ a ∈ names u.children, strcmp a nm = .lt) :
    ∃ H', loadAdd s rec = some (H', s.heap.next) ∧
      LoadOk H' (V.add u (node s.heap.next rec [])) := by
  have hlt' := ptrs_lt hs.unfolds hs.bounded
  have hV : V.Unfolds (s.heap.alloc rec).1 :=
    hs.unfolds.congr fun x hx => s.heap.alloc_nodes_ne rec (Nat.ne_of_lt (hlt' x hx))
  have hc : (node s.heap.next rec []).Unfolds (s.heap.alloc rec).1 := by
    rw [unfolds_node_iff]
    exact ⟨⟨s.heap.alloc_nodes_self rec, by simpa using hsub, by simp⟩, by simp⟩
  have hcg : (node s.heap.next rec []).Good :=
    ⟨by simp, fun w hw => by simp only [subtrees_node, List.flatMap_nil,
      List.mem_singleton] at hw; exact hw ▸ hok⟩
  have hdis : ∀ x ∈ (node s.heap.next rec []).ptrs, x ∉ V.ptrs := by
    simp only [ptrs_node, List.flatMap_nil, List.mem_singleton]
    rintro x rfl h
    exact Nat.lt_irrefl _ (hlt' _ h)
  have hfresh : nm ∉ names u.children := fun h => by simpa using hlt nm h
  have hfuel : V.ptrs.length ≤ (s.heap.alloc rec).1.next :=
    (length_le_of_nodup_of_lt hs.good.nodup hlt').trans (by simp)
  have hpar := hat.parent hV hu
  obtain ⟨H', hadd, hnext, hframe, hu', hg', hd'⟩ :=
    flListAdd_view hV hs.good hs.detached hu hudir hc hcg hdis hname hfresh hfuel
  refine ⟨H', ?_, hu', hg', hd', fun x hx => ?_⟩
  · show (do let parent ← loadParent s (s.heap.alloc rec).1
              let H ← flListAdd (s.heap.alloc rec).1 parent s.heap.next
              some (H, s.heap.next)) = _
    rw [hpar, Option.bind_eq_bind, Option.some_bind,
      show flListAdd (s.heap.alloc rec).1 (some u.ptr) s.heap.next = some H' from hadd]
    rfl
  · have hx' : s.heap.next + 1 ≤ x := by simpa [hnext] using hx
    rw [hframe x (fun h => by have := hlt' x h; omega) (by simp; omega),
      s.heap.alloc_nodes_ne rec (by omega), hs.bounded x (by omega)]

theorem flLoadLoop_cons_of {last : Int} {n : XmlNode} {s' : FlLoadState} (ns : List XmlNode)
    (h : flLoadHandle s n = some (1, s')) : flLoadLoop last s (n :: ns) = flLoadLoop last s' ns := by
  simp [flLoadLoop, h]

@[simp] theorem flLoadHandle_text (t : List Char) : flLoadHandle s (.text t) = some (1, s) := rfl

@[simp] theorem flLoadLoop_text (last : Int) (t : List Char) (ns : List XmlNode) :
    flLoadLoop last s (.text t :: ns) = flLoadLoop last s ns :=
  flLoadLoop_cons_of ns (flLoadHandle_text t)

theorem flLoadHandle_element_file (attrs : List (List Char × List Char)) (isEmpty : Bool) :
    flLoadHandle s (.element "File".toList attrs isEmpty) = loadFile s attrs isEmpty := by
  rw [flLoadHandle, if_neg (by decide), if_neg (by decide), if_pos (by decide)]

theorem flLoadHandle_element_dir (attrs : List (List Char × List Char)) (isEmpty : Bool) :
    flLoadHandle s (.element "Directory".toList attrs isEmpty) =
      loadDirectory s attrs isEmpty := by
  rw [flLoadHandle, if_neg (by decide), if_pos (by decide)]

theorem flLoadHandle_file {n : FlNode} {nm : List Char} (hs : LoadOk s.heap V)
    (hfl : s.havefl = true) (hu : u ∈ V.subtrees) (hudir : u.record.isfile = false)
    (hat : s.At u) (hsize : n.size < 2 ^ 64) (hlt : ∀ a ∈ names u.children, strcmp a nm = .lt) :
    ∃ H', flLoadHandle s (.element "File".toList [("Name".toList, nm),
        ("Size".toList, decimal n.size), ("TTH".toList, base32Encode n.tth.bytes)] true) =
        some (1, ⟨H', true, false, some s.heap.next⟩) ∧
      LoadOk H' (V.add u (node s.heap.next (loadedFile nm n.size n.tth) [])) := by
  obtain ⟨H', hadd, hok⟩ := loadAdd_view (loadedFile nm n.size n.tth) hs hu hudir hat
    rfl (by simp [NodeOk, loadedFile, FlNode.zero]; omega) rfl hlt
  have hsz : gAsciiStrtoull (decimal n.size ++ []) = n.size :=
    gAsciiStrtoull_decimal hsize (by simp)
  rw [List.append_nil] at hsz
  have hdig : (decimal n.size).all Char.isDigit = true :=
    List.all_eq_true.2 fun c hc => isDigit_of_mem_decimal hc
  have htth : (base32Encode n.tth.bytes).all (· ∈ base32Alphabet) = true :=
    List.all_eq_true.2 fun c hc => by simpa using mem_base32Encode hc
  refine ⟨H', ?_, hok⟩
  rw [flLoadHandle_element_file]
  have hN : xmlTextReaderGetAttribute [("Name".toList, nm), ("Size".toList, decimal n.size),
      ("TTH".toList, base32Encode n.tth.bytes)] "Name".toList = some nm := rfl
  have hS : xmlTextReaderGetAttribute [("Name".toList, nm), ("Size".toList, decimal n.size),
      ("TTH".toList, base32Encode n.tth.bytes)] "Size".toList = some (decimal n.size) := rfl
  have hT : xmlTextReaderGetAttribute [("Name".toList, nm), ("Size".toList, decimal n.size),
      ("TTH".toList, base32Encode n.tth.bytes)] "TTH".toList =
      some (base32Encode n.tth.bytes) := rfl
  simp only [loadFile, hfl, hN, hS, hT, hdig, htth, length_base32Encode, hsz,
    base32Decode_encode, Tth.ofBytes_bytes, hadd, Bool.not_true, Bool.or_false, ne_eq,
    not_true_eq_false, decide_False, Bool.false_or, Bool.false_eq_true, if_false,
    Option.bind_eq_bind, Option.some_bind]

theorem flLoadHandle_dir {n : FlNode} {nm : List Char} (hs : LoadOk s.heap V)
    (hfl : s.havefl = true) (hu : u ∈ V.subtrees) (hudir : u.record.isfile = false)
    (hat : s.At u) (hlt : ∀ a ∈ names u.children, strcmp a nm = .lt) (isEmpty : Bool) :
    ∃ H', flLoadHandle s (.element "Directory".toList (("Name".toList, nm) ::
        if n.incomplete then [("Incomplete".toList, "1".toList)] else []) isEmpty) =
        some (1, ⟨H', true, !isEmpty, some s.heap.next⟩) ∧
      LoadOk H' (V.add u (node s.heap.next (loadedDir nm n.incomplete) [])) := by
  obtain ⟨H', hadd, hok⟩ := loadAdd_view (loadedDir nm n.incomplete) hs hu hudir hat
    rfl (nodeOk_of_dir rfl ⟨rfl, by simp, by simp [names], by simp [loadedDir, FlNode.zero],
      by simp [loadedDir, FlNode.zero]⟩) rfl hlt
  refine ⟨H', ?_, hok⟩
  rw [flLoadHandle_element_dir]
  cases hi : n.incomplete <;> rw [hi] at hadd
  · have hN : xmlTextReaderGetAttribute [("Name".toList, nm)] "Name".toList = some nm := rfl
    have hI : xmlTextReaderGetAttribute [("Name".toList, nm)] "Incomplete".toList = none := rfl
    simp only [loadDirectory, hfl, hN, hI, hadd, Bool.not_true, Bool.false_eq_true, if_false,
      Option.isSome_none, Bool.false_and, Option.none_bind, reduceCtorEq, decide_False,
      Option.bind_eq_bind, Option.some_bind, ite_false]
  · have hN : xmlTextReaderGetAttribute [("Name".toList, nm), ("Incomplete".toList, "1".toList)]
        "Name".toList = some nm := rfl
    have hI : xmlTextReaderGetAttribute [("Name".toList, nm), ("Incomplete".toList, "1".toList)]
        "Incomplete".toList = some "1".toList := rfl
    have hd : loadedDir nm ((some "1".toList).bind List.head? = some '1') = loadedDir nm true := rfl
    simp only [loadDirectory, hfl, hN, hI, hd, hadd, Bool.not_true, Bool.false_eq_true,
      if_false, if_true, Option.bind_eq_bind, Option.some_bind]
    rw [if_neg (by decide)]
    simp [hadd]

theorem flLoadHandle_endDir {E : FlView} (hV : V.Unfolds s.heap) (hE : E ∈ V.subtrees)
    (hat : s.At E) :
    flLoadHandle s (.endElement "Directory".toList) =
      some (1, { s with newdir := false, cur := some E.ptr }) := by
  show (if !s.newdir then _ else _) = _
  rcases hat with ⟨hn, hc⟩ | ⟨hn, c, hc, hcur⟩
  · rw [if_neg (by simp [hn])]
    cases s; simp_all
  · have hcv : c ∈ V.subtrees := subtrees_trans hE (mem_subtrees_of_child hc)
    rw [if_pos (by simp [hn])]
    simp only [hcur, Option.bind_eq_bind, Option.some_bind, (hV.sub hcv).nodes,
      (hV E hE).2.2 c hc]
    cases s; simp_all

end Steps

/-! ### Whole elements -/

/-- Loading `ns` from a state under a directory `u` whose children's names are all below `nm`: a
subtree of shape `sh` named `nm` is linked last under `u`, the heap holds the grafted tree, and
`cur` is left at the subtree. -/
def LoadsNodes (ns : List XmlNode) (nm : List Char) (sh : FlShape) : Prop :=
  ∀ (last : Int) (s : FlLoadState) (V u : FlView) (rest : List XmlNode),
    LoadOk s.heap V → s.havefl = true → u ∈ V.subtrees → u.record.isfile = false → s.At u →
    (∀ a ∈ names u.children, strcmp a nm = .lt) →
    ∃ H' u' t' g, flLoadLoop last s (ns ++ rest) =
        flLoadLoop last ⟨H', true, false, some t'.ptr⟩ rest ∧
      LoadOk H' (V.graft u.ptr u' g) ∧ Extends u u' [t'] ∧ t'.shape = sh ∧
      t'.record.name.getD [] = nm

/-- Loading the listing of `t` from a state under a directory `u` whose children's names are all
below `t`'s: a subtree of `t`'s shape is linked last under `u`, the heap holds the grafted tree, and
`cur` is left at the subtree. -/
def LoadsAs (t : FlView) : Prop :=
  ∀ (last : Int) (d : Nat) (s : FlLoadState) (V u : FlView) (rest : List XmlNode),
    LoadOk s.heap V → s.havefl = true → u ∈ V.subtrees → u.record.isfile = false → s.At u →
    (∀ a ∈ names u.children, strcmp a (t.record.name.getD []) = .lt) →
    ∃ H' u' t' g, flLoadLoop last s (t.xml.nodes d ++ rest) =
        flLoadLoop last ⟨H', true, false, some t'.ptr⟩ rest ∧
      LoadOk H' (V.graft u.ptr u' g) ∧ Extends u u' [t'] ∧ t'.shape = t.shape

theorem add_extends {V u c : FlView} (hu : u ∈ V.subtrees)
    (hlt : ∀ a ∈ names u.children, strcmp a (c.record.name.getD []) = .lt) :
    Extends u (addChild u c) [c.reparent (some u.ptr)] ∧
      c.reparent (some u.ptr) ∈ (V.add u c).subtrees := by
  have he := extends_addChild hlt
  have hA : addChild u c ∈ (V.add u c).subtrees := mem_subtrees_graft (ptr_mem_of_mem_subtrees hu)
  exact ⟨he, subtrees_trans hA (mem_subtrees_of_child (by rw [he.children]; simp))⟩

/-- Items whose nodes each load as a node of the item's name and shape, with names ascending
after those under `u`, load one after the other: linked last under `u`, in order. -/
theorem loadsNodes_list {α : Type} (nodesOf : α → List XmlNode) (nameOf : α → List Char)
    (shapeOf : α → FlShape) {xs : List α}
    (h : ∀ x ∈ xs, LoadsNodes (nodesOf x) (nameOf x) (shapeOf x)) :
    ∀ (last : Int) (s : FlLoadState) (V u : FlView) (rest : List XmlNode),
    LoadOk s.heap V → s.havefl = true → u ∈ V.subtrees → u.record.isfile = false → s.At u →
    (names u.children ++ xs.map nameOf).Pairwise (fun a b => strcmp a b = .lt) →
    ∃ s' u' ts g, flLoadLoop last s (xs.flatMap nodesOf ++ rest) = flLoadLoop last s' rest ∧
      LoadOk s'.heap (V.graft u.ptr u' g) ∧ s'.havefl = true ∧ s'.At u' ∧ Extends u u' ts ∧
      ts.map shape = xs.map shapeOf := by
  induction xs with
  | nil =>
      intro last s V u rest hs hfl hu _ hat _
      refine ⟨s, u, [], id, by simp, ?_, hfl, hat, Extends.refl u, rfl⟩
      rwa [graft_self hs.good.nodup hu]
  | cons x xs ih =>
      intro last s V u rest hs hfl hu hudir hat hsort
      rw [List.map_cons, List.pairwise_append] at hsort
      obtain ⟨H₁, u₁, c', g₁, hrun₁, hs₁, hext₁, hshape₁, hname⟩ :=
        h x (List.mem_cons_self x xs) last s V u _ hs hfl hu hudir hat
          fun a ha => hsort.2.2 a ha _ (List.mem_cons_self _ _)
      have hup : u.ptr ∈ V.ptrs := ptr_mem_of_mem_subtrees hu
      have hsort₁ : (names u₁.children ++ xs.map nameOf).Pairwise
          (fun a b => strcmp a b = .lt) := by
        rw [hext₁.children, names_append, names_cons, names_nil, hname, List.append_assoc,
          List.singleton_append]
        exact List.pairwise_append.2 hsort
      obtain ⟨s', u', ts, g₂, hrun, hs', hfl', hat', hext, hshape⟩ :=
        ih (fun y hy => h y (List.mem_cons_of_mem x hy)) last ⟨H₁, true, false, some c'.ptr⟩
          (V.graft u.ptr u₁ g₁) u₁ rest hs₁ rfl (mem_subtrees_graft hup)
          (hext₁.isfile.trans hudir)
          (.inr ⟨rfl, c', by rw [hext₁.children]; simp, rfl⟩) hsort₁
      refine ⟨s', u', c' :: ts, g₂ ∘ g₁, ?_, ?_, hfl', hat', hext₁.trans hext, ?_⟩
      · rw [List.flatMap_cons, List.append_assoc, hrun₁, hrun]
      · have hq : u.ptr ∈ u₁.ptrs := hext₁.ptr ▸ ptr_mem_ptrs u₁
        have hlast : u₁.graft u.ptr u' g₂ = u' := by rw [← hext₁.ptr]; exact graft_ptr u₁
        rwa [hext₁.ptr, graft_graft hq (.inl rfl), hlast] at hs'
      · simp [hshape, hshape₁]

theorem LoadsAs.nodes {t : FlView} (h : LoadsAs t) (d : Nat) :
    LoadsNodes (.text (xmlIndent d) :: t.xml.nodes d) (t.record.name.getD []) t.shape := by
  intro last s V u rest hs hfl hu hudir hat hlt
  obtain ⟨H', u', t', g, hrun, hs', hext, hshape⟩ := h last d s V u rest hs hfl hu hudir hat hlt
  exact ⟨H', u', t', g, by rw [List.cons_append, flLoadLoop_text, hrun], hs', hext, hshape,
    by rw [name_of_shape_eq hshape]⟩

theorem nodesList_xmlList (d : Nat) : ∀ cs : List FlView,
    XmlElem.nodesList d (FlView.xmlList cs) =
      cs.flatMap fun c => .text (xmlIndent d) :: c.xml.nodes d
  | [] => by simp
  | c :: cs => by simp [nodesList_xmlList d cs]

theorem loadsAs_list {cs : List FlView} (h : ∀ c ∈ cs, LoadsAs c) :
    ∀ (last : Int) (d : Nat) (s : FlLoadState) (V u : FlView) (rest : List XmlNode),
    LoadOk s.heap V → s.havefl = true → u ∈ V.subtrees → u.record.isfile = false → s.At u →
    (names u.children ++ names cs).Pairwise (fun a b => strcmp a b = .lt) →
    ∃ s' u' ts g, flLoadLoop last s (XmlElem.nodesList d (FlView.xmlList cs) ++ rest) =
        flLoadLoop last s' rest ∧
      LoadOk s'.heap (V.graft u.ptr u' g) ∧ s'.havefl = true ∧ s'.At u' ∧ Extends u u' ts ∧
      ts.map shape = cs.map shape := fun last d => by
  rw [nodesList_xmlList]
  exact loadsNodes_list _ _ _ (fun c hc => (h c hc).nodes d) last

theorem elem_loads : ∀ {t : FlView}, t.Good → t.record.name.isSome →
    (∀ d ∈ t.subtrees, d.record.isfile → d.record.hastth = 1) → LoadsAs t := by
  intro t
  induction t using FlView.induct with
  | node p n cs ih =>
    intro hg hname hfiles last d s V u rest hs hfl hu hudir hat hlt
    obtain ⟨nm, hnm⟩ := Option.isSome_iff_exists.1 hname
    simp only [record_node] at hnm hlt
    rw [hnm, Option.getD_some] at hlt
    have hok := hg.nodes _ (mem_subtrees_self _)
    rw [FlView.xml_node]
    cases hf : n.isfile
    · -- a directory: its start, its children, its end
      obtain ⟨-, hdir⟩ := hok.dir hf
      simp only [record_node, children_node] at hdir
      rw [if_neg (by simp), dirElem, hnm, Option.getD_some, XmlElem.nodes_elem]
      let E₀ := node s.heap.next (loadedDir nm n.incomplete) []
      obtain ⟨hext₁, hmem₁⟩ := add_extends (V := V) (c := E₀) hu hlt
      rcases cs with _ | ⟨c, cs⟩
      · -- written self-closing
        obtain ⟨H', hh, hs'⟩ := flLoadHandle_dir (n := n) hs hfl hu hudir hat hlt true
        rw [FlView.xmlList_nil, List.isEmpty_nil, if_pos rfl, List.singleton_append]
        refine ⟨H', _, E₀.reparent (some u.ptr), _, flLoadLoop_cons_of rest hh, hs', hext₁, ?_⟩
        exact shape_eq_of_dir (hs'.good.nodes _ hmem₁) hok rfl hf hnm.symm rfl rfl
      · obtain ⟨H₁, hh, hs₁⟩ := flLoadHandle_dir (n := n) hs hfl hu hudir hat hlt false
        have hsort : (names (E₀.reparent (some u.ptr)).children ++ names (c :: cs)).Pairwise
            (fun a b => strcmp a b = .lt) := by
          simpa [reparent, E₀] using List.chain'_iff_pairwise.1 hdir.sorted
        obtain ⟨s₂, E₂, ts, g₂, hrun, hs₂, hfl₂, hat₂, hext₂, hshape⟩ :=
          loadsAs_list (fun x hx => ih x hx (hg.sub (mem_subtrees_of_child hx)) (hdir.named x hx)
            fun y hy => hfiles y (subtrees_subset_of_mem hx hy))
            last (d + 1) ⟨H₁, true, true, some s.heap.next⟩ (V.add u E₀) (E₀.reparent (some u.ptr))
            ([.text (xmlIndent d), .endElement "Directory".toList] ++ rest)
            hs₁ rfl hmem₁ rfl (.inl ⟨rfl, rfl⟩) hsort
        have hE₂ := mem_subtrees_graft (w := E₂) (f := g₂) (ptr_mem_of_mem_subtrees hmem₁)
        have hend := flLoadHandle_endDir hs₂.unfolds hE₂ hat₂
        have hA : addChild u E₀ ∈ (V.add u E₀).subtrees :=
          mem_subtrees_graft (ptr_mem_of_mem_subtrees hu)
        have hq : s.heap.next ∈ (addChild u E₀).ptrs :=
          ptr_mem_of_mem_subtrees (u := E₀.reparent (some u.ptr))
            (mem_subtrees_of_child (by rw [hext₁.children]; simp))
        have hN : s.heap.next ∉ V.ptrs := fun h =>
          Nat.lt_irrefl _ (ptrs_lt hs.unfolds hs.bounded _ h)
        refine ⟨s₂.heap, (addChild u E₀).graft s.heap.next E₂ g₂, E₂,
          g₂ ∘ fun x => (x + E₀.record.size) % 2 ^ 64, ?_, ?_,
          hext₁.graft_last (hs₁.good.sub hA).nodup, ?_⟩
        · obtain ⟨H₂, fl₂, nd₂, cur₂⟩ := s₂
          cases hfl₂
          have hne : (FlView.xmlList (c :: cs)).isEmpty = false := by simp
          rw [hne, if_neg Bool.false_ne_true]
          simp only [List.cons_append, List.append_assoc, List.nil_append] at hrun ⊢
          rw [flLoadLoop_cons_of _ hh, Bool.not_false, hrun, flLoadLoop_text,
            flLoadLoop_cons_of rest hend]
        · have hs₂' : LoadOk s₂.heap ((V.graft u.ptr (addChild u E₀)
              fun x => (x + E₀.record.size) % 2 ^ 64).graft s.heap.next E₂ g₂) := hs₂
          rwa [graft_graft hq (.inr hN)] at hs₂'
        · refine shape_eq_of_dir (hs₂.good.nodes _ hE₂) hok hext₂.isfile hf
            (hext₂.name.trans hnm.symm) hext₂.incomplete ?_
          simpa [hext₂.children, reparent] using hshape
    · -- a file
      have h1 := hfiles _ (mem_subtrees_self _) hf
      rw [if_pos rfl, fileElem, hnm, Option.getD_some, XmlElem.nodes_elem, List.isEmpty_nil,
        if_pos rfl, List.singleton_append]
      obtain ⟨H', hh, hs'⟩ := flLoadHandle_file (n := n) hs hfl hu hudir hat
        (size_lt_of_nodeOk hok) hlt
      obtain ⟨hext, -⟩ := add_extends (V := V)
        (c := node s.heap.next (loadedFile nm n.size n.tth) []) hu hlt
      refine ⟨H', _, (node s.heap.next (loadedFile nm n.size n.tth) []).reparent (some u.ptr), _,
        flLoadLoop_cons_of rest hh, hs', hext, ?_⟩
      simp only [record_node] at h1
      simp [shape_node, reparent, loadedFile, hf, hnm, h1]

/-! ### The document -/

section Document

variable {s : FlLoadState}

theorem flLoadHandle_fileListing_start (attrs : List (List Char × List Char))
    (hfl : s.havefl = false) :
    flLoadHandle s (.element "FileListing".toList attrs false) =
      some (1, { s with havefl := true }) := by
  rw [flLoadHandle, if_pos (by decide), hfl, Bool.false_or, if_neg Bool.false_ne_true]

theorem flLoadHandle_fileListing_empty (attrs : List (List Char × List Char)) :
    flLoadHandle s (.element "FileListing".toList attrs true) = some (-1, s) := by
  rw [flLoadHandle, if_pos (by decide), Bool.or_true, if_pos rfl]

theorem flLoadHandle_fileListing_end :
    flLoadHandle s (.endElement "FileListing".toList) = some (0, s) := by
  rw [flLoadHandle, if_neg (by decide), if_pos (by decide)]

theorem flLoadLoop_cons_stop {last r : Int} {n : XmlNode} {s' : FlLoadState} (ns : List XmlNode)
    (h : flLoadHandle s n = some (r, s')) (hr : r ≤ 0) :
    flLoadLoop last s (n :: ns) = some (r, s') := by
  simp [flLoadLoop, h, hr]

end Document

theorem loadOk_freshRoot {H₀ : FlHeap} (hb : H₀.Bounded) :
    LoadOk (H₀.alloc FlNode.freshRoot).1 (node H₀.next FlNode.freshRoot []) := by
  have ht := FlHeap.TreeOk.fresh (H₀.alloc_nodes_self FlNode.freshRoot)
  refine ⟨ht.unfolds, ht.good, ht.detached, fun x hx => ?_⟩
  rw [FlHeap.alloc_next] at hx
  rw [H₀.alloc_nodes_ne _ (by omega), hb x (by omega)]

theorem flLoad_empty_listing (H₀ : FlHeap) (attrs : List (List Char × List Char)) :
    flLoad H₀ [.element "FileListing".toList attrs true] =
      some ((H₀.alloc FlNode.freshRoot).1.free [H₀.next], none) := by
  have hfree : flListFree (H₀.alloc FlNode.freshRoot).1 (H₀.next + 1) H₀.next =
      some ((H₀.alloc FlNode.freshRoot).1.free [H₀.next]) :=
    flListFree_view (w := node H₀.next FlNode.freshRoot []) _
      (FlHeap.TreeOk.fresh (H₀.alloc_nodes_self _)).unfolds (by simp) (by simp)
  have hloop : ∀ s : FlLoadState,
      flLoadLoop (xmlReads [.element "FileListing".toList attrs true]).2 s
        (xmlReads [.element "FileListing".toList attrs true]).1 = some (-1, s) := fun s => by
    rw [xmlReads]
    split
    · exact flLoadLoop_cons_stop _ (flLoadHandle_fileListing_empty attrs) (by decide)
    · rfl
  simp only [flLoad, hloop, Option.bind_eq_bind, Option.some_bind, FlHeap.alloc_next]
  simp [hfree]

theorem flLoad_listing {H₀ : FlHeap} (hb : H₀.Bounded) {cs : List FlView} (hne : cs ≠ [])
    (hcs : ∀ c ∈ cs, c.Good ∧ c.record.name.isSome ∧
      ∀ d ∈ c.subtrees, d.record.isfile → d.record.hastth = 1)
    (hsort : (names cs).Pairwise fun a b => strcmp a b = .lt)
    (attrs : List (List Char × List Char))
    (hread : ∀ x ∈ (XmlElem.elem "FileListing".toList attrs (xmlList cs)).nodes 0, x.readable) :
    ∃ H' L, flLoad H₀ ((XmlElem.elem "FileListing".toList attrs (xmlList cs)).nodes 0) =
        some (H', some L.ptr) ∧ H'.TreeOk L.ptr L ∧ L.children.map shape = cs.map shape := by
  obtain ⟨s', L, ts, g, hrun, hs', -, -, hext, hshape⟩ :=
    loadsAs_list (fun c hc => elem_loads (hcs c hc).1 (hcs c hc).2.1 (hcs c hc).2.2) 0 (0 + 1)
      ⟨_, true, true, some H₀.next⟩ _ _ [.text (xmlIndent 0), .endElement "FileListing".toList]
      (loadOk_freshRoot hb) rfl (mem_subtrees_self _) rfl (.inl ⟨rfl, rfl⟩)
      (by simpa using hsort)
  rw [graft_ptr] at hs'
  have hloop : flLoadLoop 0 ⟨(H₀.alloc FlNode.freshRoot).1, false, true, some H₀.next⟩
      ((XmlElem.elem "FileListing".toList attrs (xmlList cs)).nodes 0) = some (0, s') := by
    obtain ⟨c, cs, rfl⟩ := List.exists_cons_of_ne_nil hne
    rw [XmlElem.nodes_elem, xmlList_cons, List.isEmpty_cons, if_neg Bool.false_ne_true,
      ← xmlList_cons, List.cons_append, flLoadLoop_cons_of _
        (flLoadHandle_fileListing_start (s := ⟨_, false, true, some H₀.next⟩) attrs rfl), hrun,
      flLoadLoop_text, flLoadLoop_cons_stop _ flLoadHandle_fileListing_end le_rfl]
  refine ⟨s'.heap, L, ?_, .of_unfolds rfl hs'.unfolds hs'.good hs'.detached, ?_⟩
  · rw [hext.ptr]
    simp only [flLoad, xmlReads_of_readable hread, FlHeap.alloc_snd, hloop, Option.bind_eq_bind,
      Option.some_bind]
    rfl
  · rw [hext.children, children_node, List.nil_append, hshape]

end Ncdc
