import Mathlib.Data.List.Basic

/-!
The part of libxml2 the file list uses: an `xmlTextWriter` and an `xmlTextReader`. libxml2
is not in src/; this module follows the spec's description of the XML, over an output that
accepts every write.
-/

namespace Ncdc

/-! ### Documents -/

/-- An element of a document: its name, its attributes in the order written, and the
elements inside it. -/
inductive XmlElem
  | elem (name : List Char) (attrs : List (List Char × List Char)) (children : List XmlElem)
  deriving Repr

/-- A character XML 1.0 can represent: the production `Char` of the XML specification. -/
def xmlChar (c : Char) : Bool :=
  c == '\t' || c == '\n' || c == '\r' || (0x20 ≤ c.toNat && c.toNat ≤ 0xD7FF) ||
    (0xE000 ≤ c.toNat && c.toNat ≤ 0xFFFD) || 0x10000 ≤ c.toNat

/-! ### The writer -/

/-- An element the writer has started and not yet ended. -/
structure XmlOpen where
  name : List Char
  attrs : List (List Char × List Char)
  children : List XmlElem

/-- The element an open element becomes when it is ended. -/
def XmlOpen.close (e : XmlOpen) : XmlElem := .elem e.name e.attrs e.children

/-- An `xmlTextWriter`: the open elements, innermost first, and the elements ended at the
top of the document. -/
structure XmlWriter where
  stack : List XmlOpen
  doc : List XmlElem

/-- The writer `xmlNewTextWriter` returns. -/
def XmlWriter.empty : XmlWriter := ⟨[], []⟩

/-- End the innermost open element, inside the next one or at the top of the document. -/
def XmlWriter.endElement : XmlWriter → Option XmlWriter
  | ⟨[], _⟩ => none
  | ⟨[e], doc⟩ => some ⟨[], doc ++ [e.close]⟩
  | ⟨e :: p :: st, doc⟩ => some ⟨{ p with children := p.children ++ [e.close] } :: st, doc⟩

/-- `xmlTextWriterStartDocument`: only before any element is open. -/
def xmlTextWriterStartDocument (w : XmlWriter) : Int × XmlWriter :=
  if w.stack.isEmpty then (0, w) else (-1, w)

/-- `xmlTextWriterStartElement`. -/
def xmlTextWriterStartElement (w : XmlWriter) (name : List Char) : Int × XmlWriter :=
  (0, { w with stack := ⟨name, [], []⟩ :: w.stack })

/-- `xmlTextWriterWriteAttribute`: on the innermost open element, before anything is written
inside it; `NULL` content fails. -/
def xmlTextWriterWriteAttribute (w : XmlWriter) (name : List Char)
    (content : Option (List Char)) : Int × XmlWriter :=
  match w.stack, content with
  | ⟨n, as, []⟩ :: st, some v => (0, { w with stack := ⟨n, as ++ [(name, v)], []⟩ :: st })
  | _, _ => (-1, w)

/-- `xmlTextWriterEndElement`. -/
def xmlTextWriterEndElement (w : XmlWriter) : Int × XmlWriter :=
  match w.endElement with
  | some w' => (0, w')
  | none => (-1, w)

/-- End the `k` innermost open elements. -/
def XmlWriter.endAll : Nat → XmlWriter → XmlWriter
  | 0, w => w
  | k + 1, w =>
      match w.endElement with
      | some w' => endAll k w'
      | none => w

/-- `xmlTextWriterEndDocument`: end every open element. -/
def xmlTextWriterEndDocument (w : XmlWriter) : Int × XmlWriter := (0, w.endAll w.stack.length)

@[simp] theorem xmlTextWriterStartElement_mk (st : List XmlOpen) (doc : List XmlElem)
    (name : List Char) :
    xmlTextWriterStartElement ⟨st, doc⟩ name = (0, ⟨⟨name, [], []⟩ :: st, doc⟩) := rfl

@[simp] theorem xmlTextWriterWriteAttribute_mk (n : List Char)
    (as : List (List Char × List Char)) (st : List XmlOpen) (doc : List XmlElem)
    (name v : List Char) :
    xmlTextWriterWriteAttribute ⟨⟨n, as, []⟩ :: st, doc⟩ name (some v) =
      (0, ⟨⟨n, as ++ [(name, v)], []⟩ :: st, doc⟩) := rfl

@[simp] theorem xmlTextWriterEndElement_cons_cons (e p : XmlOpen) (st : List XmlOpen)
    (doc : List XmlElem) :
    xmlTextWriterEndElement ⟨e :: p :: st, doc⟩ =
      (0, ⟨{ p with children := p.children ++ [e.close] } :: st, doc⟩) := rfl

@[simp] theorem xmlTextWriterEndElement_single (e : XmlOpen) (doc : List XmlElem) :
    xmlTextWriterEndElement ⟨[e], doc⟩ = (0, ⟨[], doc ++ [e.close]⟩) := rfl

/-! ### The reader -/

/-- A node `xmlTextReaderRead` stops at, as `fl_load_handle` sees it through
`xmlTextReaderNodeType`, `xmlTextReaderName`, `xmlTextReaderGetAttribute` and
`xmlTextReaderIsEmptyElement`. -/
inductive XmlNode
  | element (name : List Char) (attrs : List (List Char × List Char)) (isEmpty : Bool)
  | endElement (name : List Char)
  | text (s : List Char)
  deriving DecidableEq, Repr

/-- `xmlTextReaderGetAttribute`: the value of the attribute of that name. -/
def xmlTextReaderGetAttribute (attrs : List (List Char × List Char)) (name : List Char) :
    Option (List Char) :=
  attrs.lookup name

/-- The whitespace the writer puts before a tag at depth `d`. -/
def xmlIndent (d : Nat) : List Char := '\n' :: List.replicate d '\t'

mutual
/-- The nodes the reader reports for an element written at depth `d`. -/
def XmlElem.nodes (d : Nat) : XmlElem → List XmlNode
  | .elem n as cs =>
      if cs.isEmpty then [.element n as true]
      else .element n as false :: XmlElem.nodesList (d + 1) cs ++ [.text (xmlIndent d), .endElement n]
/-- The nodes of the elements inside an element, each after its indentation. -/
def XmlElem.nodesList (d : Nat) : List XmlElem → List XmlNode
  | [] => []
  | c :: cs => .text (xmlIndent d) :: c.nodes d ++ XmlElem.nodesList d cs
end

theorem XmlElem.nodes_elem (d : Nat) (n : List Char) (as : List (List Char × List Char))
    (cs : List XmlElem) :
    (XmlElem.elem n as cs).nodes d =
      if cs.isEmpty then [.element n as true]
      else .element n as false :: XmlElem.nodesList (d + 1) cs ++
        [.text (xmlIndent d), .endElement n] := by
  rw [XmlElem.nodes]

@[simp] theorem XmlElem.nodesList_nil (d : Nat) : XmlElem.nodesList d [] = [] := by
  rw [XmlElem.nodesList]

@[simp] theorem XmlElem.nodesList_cons (d : Nat) (c : XmlElem) (cs : List XmlElem) :
    XmlElem.nodesList d (c :: cs) = .text (xmlIndent d) :: c.nodes d ++ XmlElem.nodesList d cs := by
  rw [XmlElem.nodesList]

/-- The nodes of a document: those of its top element. -/
def xmlDocNodes (doc : List XmlElem) : List XmlNode := doc.flatMap (XmlElem.nodes 0)

/-- Whether the reader parses a node: an element whose attributes are XML text. -/
def XmlNode.readable : XmlNode → Bool
  | .element _ attrs _ => attrs.all fun a => a.2.all xmlChar
  | _ => true

/-- What `xmlTextReaderRead` yields on a document with these nodes: the nodes it reports,
and what its last call returns, `0` at the end of the document or `-1` at the first node it
cannot parse. -/
def xmlReads : List XmlNode → List XmlNode × Int
  | [] => ([], 0)
  | n :: ns => if n.readable then (n :: (xmlReads ns).1, (xmlReads ns).2) else ([], -1)

theorem xmlReads_of_readable : ∀ {ns : List XmlNode}, (∀ n ∈ ns, n.readable) → xmlReads ns = (ns, 0)
  | [], _ => rfl
  | n :: ns, h => by
      rw [xmlReads, if_pos (h n (List.mem_cons_self n ns)),
        xmlReads_of_readable fun m hm => h m (List.mem_cons_of_mem n hm)]

end Ncdc
