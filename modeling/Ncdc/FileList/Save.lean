import Ncdc.FileList.View
import Ncdc.Xml
import Ncdc.CString

/-!
Writing a file list out: `fl_save_childs` and `fl_save`. `FlView.saved` is what the walk
writes for a child of a tree with I1-I3, and `FlView.xml` the listing when the level reaches
every directory.
-/

namespace Ncdc

open FlView

/-! ### Paths -/

/-- The loop of `fl_list_path`: prefix the name of each ancestor below the root, then `/`. -/
def flListPathUp (H : FlHeap) : Nat → List Char → Nat → Option (List Char)
  | 0, _, _ => none
  | fuel + 1, path, cur => do
      let c ← H.nodes cur
      match c.parent with
      | none => some (gBuildFilename ["/".toList, path])
      | some up => do
          let nm ← c.name
          flListPathUp H fuel (gBuildFilename [nm, path]) up

/-- `fl_list_path(fl)`: the virtual path of a record, `/` for the root. -/
def flListPath (H : FlHeap) (fl : Nat) : Option (List Char) := do
  let n ← H.nodes fl
  match n.parent with
  | none => some "/".toList
  | some cur => do
      let nm ← n.name
      flListPathUp H H.next nm cur

/-! ### The writer's calls -/

/-- `CHECKFAIL(f)` of `fl_save_childs` and `fl_save`: a negative return gives up with
`FALSE`; otherwise the writing goes on. -/
def checkfail (r : Int × XmlWriter) (k : XmlWriter → Option (Bool × XmlWriter)) :
    Option (Bool × XmlWriter) :=
  if r.1 < 0 then some (false, r.2) else k r.2

@[simp] theorem checkfail_zero (w : XmlWriter) (k : XmlWriter → Option (Bool × XmlWriter)) :
    checkfail (0, w) k = k w := rfl

/-- The `<File>` part of `fl_save_childs` for a record `cur`; `k` goes on with the loop. -/
def saveFile (cur : FlNode) (w : XmlWriter) (k : XmlWriter → Option (Bool × XmlWriter)) :
    Option (Bool × XmlWriter) :=
  checkfail (xmlTextWriterStartElement w "File".toList) fun w =>
  checkfail (xmlTextWriterWriteAttribute w "Name".toList cur.name) fun w =>
  checkfail (xmlTextWriterWriteAttribute w "Size".toList (some (decimal cur.size))) fun w =>
  checkfail (xmlTextWriterWriteAttribute w "TTH".toList (some (base32Encode cur.tth.bytes)))
    fun w =>
  checkfail (xmlTextWriterEndElement w) k

/-- The test of `fl_save_childs` for `Incomplete="1"`. It short-circuits, so `cur->sub`
is read only when the flag is clear. -/
def saveIncomplete (level : Nat) (cur : FlNode) : Option Bool :=
  if cur.incomplete then some true
  else cur.sub.map fun sub => cur.hastth ≠ sub.length || (cur.hastth ≠ 0 && level < 1)

/-- The `<Directory>` part of `fl_save_childs` for the child `q` with record `cur`: when `level >
0`, `recurse` writes its children inside it, its result ignored, and `k` goes on with the loop. -/
def saveDir (level : Nat) (recurse : Nat → XmlWriter → Option (Bool × XmlWriter)) (q : Nat)
    (cur : FlNode) (w : XmlWriter) (k : XmlWriter → Option (Bool × XmlWriter)) :
    Option (Bool × XmlWriter) :=
  checkfail (xmlTextWriterStartElement w "Directory".toList) fun w =>
  checkfail (xmlTextWriterWriteAttribute w "Name".toList cur.name) fun w => do
    let incomplete ← saveIncomplete level cur
    let inside := fun w => do
      let w ← if 0 < level then (recurse q w).map Prod.snd else some w
      checkfail (xmlTextWriterEndElement w) k
    if incomplete then
      checkfail (xmlTextWriterWriteAttribute w "Incomplete".toList (some "1".toList)) inside
    else inside w

/-- The loop of `fl_save_childs` over the sequence `qs`. -/
def flSaveChildsLoop (H : FlHeap) (level : Nat)
    (recurse : Nat → XmlWriter → Option (Bool × XmlWriter)) :
    List Nat → XmlWriter → Option (Bool × XmlWriter)
  | [], w => some (true, w)
  | q :: qs, w => do
      let cur ← H.nodes q
      let dir := fun w =>
        if !cur.isfile then saveDir level recurse q cur w (flSaveChildsLoop H level recurse qs)
        else flSaveChildsLoop H level recurse qs w
      if cur.isfile && cur.hastth ≠ 0 then saveFile cur w dir else dir w

/-- `fl_save_childs(writer, fl, level)` with `recurse` for its recursive call. -/
def flSaveChildsAt (H : FlHeap) (level : Nat)
    (recurse : Nat → XmlWriter → Option (Bool × XmlWriter)) (fl : Nat) (w : XmlWriter) :
    Option (Bool × XmlWriter) := do
  let n ← H.nodes fl
  let sub ← n.sub
  flSaveChildsLoop H level recurse sub w

/-- `fl_save_childs(writer, fl, level)`. At level `0` the recursive call is never made. -/
def flSaveChilds (H : FlHeap) : Nat → Nat → XmlWriter → Option (Bool × XmlWriter)
  | 0, fl, w => flSaveChildsAt H 0 (fun _ w => some (true, w)) fl w
  | l + 1, fl, w => flSaveChildsAt H (l + 1) (flSaveChilds H l) fl w

/-- The calls of `fl_save` from `xmlTextWriterStartDocument` to the end of `<FileListing>`:
`success` and the writer at `fl_save_error`. `generator` is `PACKAGE_STRING`, `cid` the configured
CID, and the indent setters only set options. -/
def flSaveBody (H : FlHeap) (generator : List Char) (cid : Option (List Char)) (fl level : Nat)
    (w : XmlWriter) : Option (Bool × XmlWriter) :=
  checkfail (xmlTextWriterStartDocument w) fun w =>
  checkfail (xmlTextWriterStartElement w "FileListing".toList) fun w =>
  checkfail (xmlTextWriterWriteAttribute w "Version".toList (some "1".toList)) fun w =>
  checkfail (xmlTextWriterWriteAttribute w "Generator".toList (some generator)) fun w =>
  checkfail (xmlTextWriterWriteAttribute w "CID".toList cid) fun w => do
    let path ← flListPath H fl
    checkfail (xmlTextWriterWriteAttribute w "Base".toList (some path)) fun w => do
      let (ok, w) ← flSaveChilds H (level - 1) fl w
      if !ok then some (false, w)
      else checkfail (xmlTextWriterEndElement w) fun w => some (true, w)

/-- `fl_save(fl, file, buf, level, err)` up to its output: `success`, and the document after
`xmlTextWriterEndDocument`. Opening the temporary file, and renaming it over `file` when
`success` holds, are left to the file layer. -/
def flSave (H : FlHeap) (generator : List Char) (cid : Option (List Char)) (fl level : Nat)
    (w : XmlWriter) : Option (Bool × XmlWriter) := do
  let (success, w) ← flSaveBody H generator cid fl level w
  some (success, (xmlTextWriterEndDocument w).2)

/-! ### What is written -/

/-- The `<File>` element of a record. -/
def fileElem (n : FlNode) : XmlElem :=
  .elem "File".toList [("Name".toList, n.name.getD []), ("Size".toList, decimal n.size),
    ("TTH".toList, base32Encode n.tth.bytes)] []

/-- The `<Directory>` element of a record, with `Incomplete="1"` or without. -/
def dirElem (n : FlNode) (incomplete : Bool) (children : List XmlElem) : XmlElem :=
  .elem "Directory".toList (("Name".toList, n.name.getD []) ::
    if incomplete then [("Incomplete".toList, "1".toList)] else []) children

/-- Whether `fl_save_childs` at `level` marks a directory with `len` children incomplete. -/
def savedIncomplete (n : FlNode) (len level : Nat) : Bool :=
  n.incomplete || (n.hastth ≠ len || (n.hastth ≠ 0 && level < 1))

mutual
/-- What `fl_save_childs` at `level` writes for a child: a file with a hash as a `<File>`, a
directory as a `<Directory>` holding, when `level > 0`, its children one level down; a
file without a hash not at all. -/
def FlView.saved (level : Nat) : FlView → List XmlElem
  | node _ n cs =>
      if n.isfile then (if n.hastth ≠ 0 then [fileElem n] else [])
      else [dirElem n (savedIncomplete n cs.length level)
        (if 0 < level then FlView.savedList (level - 1) cs else [])]
/-- What `fl_save_childs` at `level` writes for a list of children. -/
def FlView.savedList (level : Nat) : List FlView → List XmlElem
  | [] => []
  | c :: cs => c.saved level ++ FlView.savedList level cs
end

@[simp] theorem FlView.savedList_nil (level : Nat) : FlView.savedList level [] = [] := by
  rw [FlView.savedList]

@[simp] theorem FlView.savedList_cons (level : Nat) (c : FlView) (cs : List FlView) :
    FlView.savedList level (c :: cs) = c.saved level ++ FlView.savedList level cs := by
  rw [FlView.savedList]

theorem FlView.saved_node (level p : Nat) (n : FlNode) (cs : List FlView) :
    (node p n cs).saved level =
      if n.isfile then (if n.hastth ≠ 0 then [fileElem n] else [])
      else [dirElem n (savedIncomplete n cs.length level)
        (if 0 < level then FlView.savedList (level - 1) cs else [])] := by
  rw [FlView.saved]

/-! ### The walk writes what `saved` says -/

section Walk

variable {H : FlHeap} {level : Nat} {recurse : Nat → XmlWriter → Option (Bool × XmlWriter)}

theorem FlView.sub_of_unfolds {c : FlView} (hc : c.Unfolds H) (hok : NodeOk c)
    (hdir : c.record.isfile = false) : c.record.sub = some (c.children.map ptr) := by
  obtain ⟨s, hs⟩ := Option.isSome_iff_exists.1 (hok.dir hdir).1
  have := (hc c (mem_subtrees_self c)).2.1
  rw [hs, Option.getD_some] at this
  rw [hs, this]

theorem saveIncomplete_eq {cur : FlNode} {l : List Nat} (hsub : cur.sub = some l) :
    saveIncomplete level cur = some (savedIncomplete cur l.length level) := by
  cases h : cur.incomplete <;> simp [saveIncomplete, savedIncomplete, h, hsub]

theorem saveFile_eq {cur : FlNode} {nm : List Char} (hname : cur.name = some nm) (e : XmlOpen)
    (st : List XmlOpen) (doc : List XmlElem) (k : XmlWriter → Option (Bool × XmlWriter)) :
    saveFile cur ⟨e :: st, doc⟩ k =
      k ⟨{ e with children := e.children ++ [fileElem cur] } :: st, doc⟩ := by
  simp [saveFile, hname, fileElem, XmlOpen.close]

theorem saveDir_eq {q : Nat} {cur : FlNode} {nm : List Char} {b : Bool} {ys : List XmlElem}
    (hname : cur.name = some nm) (hinc : saveIncomplete level cur = some b) (e : XmlOpen)
    (st : List XmlOpen) (doc : List XmlElem)
    (hrec : 0 < level → ∀ as, recurse q ⟨⟨"Directory".toList, as, []⟩ :: e :: st, doc⟩ =
      some (true, ⟨⟨"Directory".toList, as, ys⟩ :: e :: st, doc⟩))
    (k : XmlWriter → Option (Bool × XmlWriter)) :
    saveDir level recurse q cur ⟨e :: st, doc⟩ k =
      k ⟨{ e with children := e.children ++ [dirElem cur b (if 0 < level then ys else [])] } ::
        st, doc⟩ := by
  by_cases hl : 0 < level
  · cases b <;> simp only [saveDir, xmlTextWriterStartElement_mk, checkfail_zero, hname,
      xmlTextWriterWriteAttribute_mk, hinc, Option.some_bind, hl, if_true, Bool.false_eq_true,
      if_false, List.nil_append, hrec hl, Option.map_some', xmlTextWriterEndElement_cons_cons] <;>
      simp [dirElem, XmlOpen.close, hname]
  · cases b <;> simp [saveDir, hname, hinc, hl, dirElem, XmlOpen.close]

theorem flSaveChildsLoop_view :
    ∀ {cs : List FlView}, (∀ c ∈ cs, c.Unfolds H ∧ NodeOk c ∧ c.record.name.isSome) →
    (∀ c ∈ cs, c.record.isfile = false → 0 < level → ∀ (e : XmlOpen) st doc,
      recurse c.ptr ⟨e :: st, doc⟩ = some (true,
        ⟨{ e with children := e.children ++ FlView.savedList (level - 1) c.children } :: st, doc⟩)) →
    ∀ (e : XmlOpen) st doc, flSaveChildsLoop H level recurse (cs.map ptr) ⟨e :: st, doc⟩ =
      some (true, ⟨{ e with children := e.children ++ FlView.savedList level cs } :: st, doc⟩)
  | [], _, _, e, st, doc => by simp [flSaveChildsLoop]
  | node p n ds :: cs, hcs, hrec, e, st, doc => by
      obtain ⟨hc, hok, hname⟩ := hcs _ (List.mem_cons_self _ _)
      obtain ⟨nm, hnm⟩ := Option.isSome_iff_exists.1 hname
      have ih := flSaveChildsLoop_view (fun c h => hcs c (List.mem_cons_of_mem _ h))
        (fun c h => hrec c (List.mem_cons_of_mem _ h))
      have hp : H.nodes p = some n := hc.nodes
      simp only [record_node] at hnm
      simp only [List.map_cons, flSaveChildsLoop, ptr_node, hp, Option.bind_eq_bind,
        Option.some_bind, FlView.savedList_cons, FlView.saved_node]
      cases hf : n.isfile
      · -- a directory: its element, then the rest of the loop
        have hsub := FlView.sub_of_unfolds hc hok hf
        simp only [record_node, children_node] at hsub
        simp only [hf, Bool.false_and, Bool.not_false, if_true, Bool.false_eq_true, if_false]
        rw [saveDir_eq (q := p) hnm (saveIncomplete_eq hsub) e st doc
          (fun hl as => hrec _ (List.mem_cons_self _ _) hf hl _ _ _), ih]
        simp
      · -- a file: its element when it has a hash
        by_cases hh : n.hastth = 0
        · simp [hh, ih]
        · simp [hh, saveFile_eq hnm, ih]

theorem flSaveChilds_view : ∀ {v : FlView}, v.Unfolds H → v.Good → v.record.isfile = false →
    ∀ level (e : XmlOpen) st doc, flSaveChilds H level v.ptr ⟨e :: st, doc⟩ =
      some (true, ⟨{ e with children := e.children ++ FlView.savedList level v.children } :: st,
        doc⟩) := by
  intro v
  induction v using FlView.induct with
  | node p n cs ih =>
      intro hv hg hdir level e st doc
      have hok := hg.nodes _ (mem_subtrees_self _)
      have hsub := FlView.sub_of_unfolds hv hok hdir
      have hcs : ∀ c ∈ cs, c.Unfolds H ∧ NodeOk c ∧ c.record.name.isSome := fun c hc =>
        ⟨(unfolds_node_iff.1 hv).2 c hc, hg.nodes c (mem_subtrees_of_child hc),
          (hok.dir hdir).2.named c hc⟩
      have hp : H.nodes p = some n := hv.nodes
      simp only [record_node, children_node] at hsub
      cases level with
      | zero =>
          simp only [flSaveChilds, flSaveChildsAt, ptr_node, hp, hsub, Option.bind_eq_bind,
            Option.some_bind]
          exact flSaveChildsLoop_view hcs (fun _ _ _ h => absurd h (Nat.lt_irrefl 0)) e st doc
      | succ l =>
          simp only [flSaveChilds, flSaveChildsAt, ptr_node, hp, hsub, Option.bind_eq_bind,
            Option.some_bind]
          exact flSaveChildsLoop_view hcs (fun c hc hcd _ => ih c hc (hcs c hc).1
            (hg.sub (mem_subtrees_of_child hc)) hcd l) e st doc

end Walk

/-- The `<FileListing>` element `fl_save` writes around a listing. -/
def fileListingElem (generator cid base : List Char) (children : List XmlElem) : XmlElem :=
  .elem "FileListing".toList [("Version".toList, "1".toList), ("Generator".toList, generator),
    ("CID".toList, cid), ("Base".toList, base)] children

theorem flSave_view {H : FlHeap} {v : FlView} (hv : v.Unfolds H) (hg : v.Good)
    (hdir : v.record.isfile = false) (hroot : v.record.parent = none)
    (generator cid : List Char) (level : Nat) :
    flSave H generator (some cid) v.ptr level XmlWriter.empty =
      some (true, ⟨[], [fileListingElem generator cid "/".toList
        (FlView.savedList (level - 1) v.children)]⟩) := by
  have hpath : flListPath H v.ptr = some "/".toList := by
    simp [flListPath, hv.nodes, hroot]
  simp only [flSave, flSaveBody, XmlWriter.empty, xmlTextWriterStartDocument, List.isEmpty_nil,
    if_true, checkfail_zero, xmlTextWriterStartElement_mk, xmlTextWriterWriteAttribute_mk,
    hpath, Option.bind_eq_bind, Option.some_bind, flSaveChilds_view hv hg hdir]
  simp [xmlTextWriterEndDocument, XmlWriter.endAll, XmlWriter.endElement, fileListingElem,
    XmlOpen.close]

/-! ### The listing itself -/

mutual
/-- The element of a node when every file has a hash and every directory is reached: a file
as its `<File>`, a directory as a `<Directory>`, `Incomplete="1"` exactly when it is marked
incomplete, holding its children's elements. -/
def FlView.xml : FlView → XmlElem
  | node _ n cs => if n.isfile then fileElem n else dirElem n n.incomplete (FlView.xmlList cs)
/-- The elements of a list of nodes. -/
def FlView.xmlList : List FlView → List XmlElem
  | [] => []
  | c :: cs => c.xml :: FlView.xmlList cs
end

theorem FlView.xml_node (p : Nat) (n : FlNode) (cs : List FlView) :
    (node p n cs).xml = if n.isfile then fileElem n else dirElem n n.incomplete (FlView.xmlList cs) := by
  rw [FlView.xml]

@[simp] theorem FlView.xmlList_nil : FlView.xmlList [] = [] := by rw [FlView.xmlList]

@[simp] theorem FlView.xmlList_cons (c : FlView) (cs : List FlView) :
    FlView.xmlList (c :: cs) = c.xml :: FlView.xmlList cs := by rw [FlView.xmlList]

mutual
/-- The height of a view: `0` for a node without children. -/
def FlView.height : FlView → Nat
  | node _ _ cs => FlView.heightList cs
/-- One more than the greatest height of a list of views, `0` for none. -/
def FlView.heightList : List FlView → Nat
  | [] => 0
  | c :: cs => max (c.height + 1) (FlView.heightList cs)
end

theorem FlView.height_lt_of_mem : ∀ {cs : List FlView} {c : FlView}, c ∈ cs →
    c.height < FlView.heightList cs
  | d :: ds, c, h => by
      rw [FlView.heightList]
      rcases List.mem_cons.1 h with rfl | h
      · omega
      · have := FlView.height_lt_of_mem h; omega

theorem FlView.height_node (p : Nat) (n : FlNode) (cs : List FlView) :
    (node p n cs).height = FlView.heightList cs := by rw [FlView.height]

theorem FlView.hastth_eq_length {n : FlNode} {cs : List FlView} (hok : DirOk n cs)
    (hfiles : ∀ c ∈ cs, c.record.isfile → c.record.hastth = 1) : n.hastth = cs.length := by
  rw [hok.hastth, List.countP_eq_length.2 fun c hc => by
    cases hf : c.record.isfile <;> simp [hf, hfiles c hc]]

theorem FlView.savedList_eq_xmlList {level : Nat} :
    ∀ {cs : List FlView}, (∀ c ∈ cs, c.saved level = [c.xml]) →
      FlView.savedList level cs = FlView.xmlList cs
  | [], _ => by simp
  | c :: cs, h => by
      rw [FlView.savedList_cons, FlView.xmlList_cons, h c (List.mem_cons_self c cs),
        FlView.savedList_eq_xmlList fun d hd => h d (List.mem_cons_of_mem c hd)]
      rfl

theorem FlView.saved_eq_xml : ∀ {c : FlView} {level : Nat}, c.Good →
    (∀ d ∈ c.subtrees, d.record.isfile → d.record.hastth = 1) → c.height ≤ level →
    c.saved level = [c.xml] := by
  intro c
  induction c using FlView.induct with
  | node p n cs ih =>
      intro level hg hfiles hh
      rw [FlView.saved_node, FlView.xml_node, FlView.height_node] at *
      cases hf : n.isfile
      · obtain ⟨-, hok⟩ := (hg.nodes _ (mem_subtrees_self _)).dir hf
        simp only [record_node, children_node] at hok
        have hlen := FlView.hastth_eq_length hok fun c hc =>
          hfiles c (subtrees_subset_of_mem hc (mem_subtrees_self c))
        -- a directory with children lies above `level`'s last row
        have hpos : cs ≠ [] → 0 < level := fun hne => by
          obtain ⟨d, hd⟩ := List.exists_mem_of_ne_nil cs hne
          have := FlView.height_lt_of_mem hd; omega
        have hinc : savedIncomplete n cs.length level = n.incomplete := by
          rcases eq_or_ne cs [] with rfl | hne
          · simp [savedIncomplete, hlen]
          · have := hpos hne
            simp [savedIncomplete, hlen]; omega
        have hkids : (if 0 < level then FlView.savedList (level - 1) cs else []) =
            FlView.xmlList cs := by
          rcases eq_or_ne cs [] with rfl | hne
          · simp
          rw [if_pos (hpos hne)]
          exact FlView.savedList_eq_xmlList fun d hd =>
            ih d hd (hg.sub (mem_subtrees_of_child (u := node p n cs) hd))
              (fun x hx => hfiles x (subtrees_subset_of_mem hd hx))
              (by have := FlView.height_lt_of_mem hd; omega)
        simp [hinc, hkids]
      · have h1 : n.hastth = 1 := hfiles _ (mem_subtrees_self _) hf
        simp [h1]

end Ncdc
