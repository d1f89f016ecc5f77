import Ncdc.CString

/-!
The per-peer record of a hub session (`struct hub_user`) and `user_nmdc_nfo`, which fills it
from a `$MyINFO` payload. The routines `hub.c` calls that src/ lacks form the parameter
`Helpers`, so a result holds whatever they compute unless it says otherwise.
-/

namespace Ncdc

/-- A parsed ADC command (`struct adc_cmd`): the addressing tag (`B`, `I`, ...), the
three-letter command name, the source session id and the positional parameters. -/
structure AdcCmd where
  type : Char
  cmd : List Char
  source : Nat
  argv : List (List Char)
  deriving DecidableEq, Repr

/-- The routines `hub.c` calls whose code is not in src/. -/
structure Helpers where
  /-- `charset_convert(hub, TRUE, s)`: hub encoding to UTF-8. -/
  toUtf8 : List Char → List Char
  /-- `charset_convert(hub, FALSE, s)`: UTF-8 to hub encoding. -/
  fromUtf8 : List Char → List Char
  /-- `nmdc_encode_and_escape(hub, s)`. -/
  encodeAndEscape : List Char → List Char
  /-- `nmdc_unescape_and_decode(hub, s)`. -/
  unescapeAndDecode : List Char → List Char
  /-- `nmdc_lock2key(lock)`. -/
  lock2key : List Char → List Char
  /-- `adc_parse(msg, &cmd, &err)`; `none` when it sets `err`. -/
  adcParse : List Char → Option AdcCmd
  /-- `ADC_DFCC(s)`: a four-character session id as an integer. -/
  adcDfcc : List Char → Nat
  /-- `adc_generate(type, cmd, source, 0)`: the start of an outgoing ADC command. -/
  adcGenerate : Char → List Char → Nat → List Char
  /-- The text `adc_append(cmd, key, value)` appends. -/
  adcAppend : List Char → List Char → List Char
  /-- `base32_decode` of a 39-character identifier into 24 bytes. -/
  base32Decode : List Char → List Nat
  /-- The `VERSION` macro. -/
  version : List Char

/-- Helpers for a UTF-8 hub whose text needs no conversion or escaping, to run the
handlers on concrete frames. -/
def Helpers.plain : Helpers where
  toUtf8 := id
  fromUtf8 := id
  encodeAndEscape := id
  unescapeAndDecode := id
  lock2key := id
  adcParse := fun _ => none
  adcDfcc := fun _ => 0
  adcGenerate := fun t c _ => t :: c
  adcAppend := fun k v => ' ' :: k ++ v
  base32Decode := fun _ => List.replicate 24 0
  version := "1.0".toList

/-- `struct hub_user` without the UI's `isjoined` flag and list iterator. Its `unsigned char` and
`unsigned int` counters are naturals the assignments keep below `2 ^ 8` and `2 ^ 32`. -/
structure HubUser where
  hasinfo : Bool
  isop : Bool
  active : Bool
  hNorm : Nat
  hReg : Nat
  hOp : Nat
  slots : Nat
  as : Nat
  name : List Char
  nameHub : Option (List Char)
  desc : Option (List Char)
  conn : Option (List Char)
  mail : Option (List Char)
  client : Option (List Char)
  sid : Nat
  cid : List Nat
  sharesize : Nat
  deriving DecidableEq, Repr

/-- A record as `g_slice_new0` hands it out. -/
def HubUser.empty : HubUser where
  hasinfo := false
  isop := false
  active := false
  hNorm := 0
  hReg := 0
  hOp := 0
  slots := 0
  as := 0
  name := []
  nameHub := none
  desc := none
  conn := none
  mail := none
  client := none
  sid := 0
  cid := List.replicate 24 0
  sharesize := 0

/-! ### The tag of a `$MyINFO`

The part of the description between the last `<` and the closing `>` is a comma-separated
list. The `L` macro of `user_nmdc_nfo` reads each element in turn: the first is the
client, `M:A` marks the user active, and anything else is offered to three `sscanf`
formats, of which the first that does not return zero wins. -/

/-- The locals of `user_nmdc_nfo` that the tag writes. -/
structure Tag where
  client : Option (List Char)
  active : Bool
  hNorm : Nat
  hReg : Nat
  hOp : Nat
  slots : Nat
  as : Nat
  deriving DecidableEq, Repr

/-- The locals before any tag element was read. -/
def Tag.init : Tag := ⟨none, false, 0, 0, 0, 0, 0⟩

/-- `"H:%hhu/%hhu/%hhu"` -/
def hubsFormat : List ScanDir :=
  [.lit 'H', .lit ':', .unsigned 8, .lit '/', .unsigned 8, .lit '/', .unsigned 8]

/-- `"S:%hhu"` -/
def slotsFormat : List ScanDir := [.lit 'S', .lit ':', .unsigned 8]

/-- `"O:%u"` -/
def autoFormat : List ScanDir := [.lit 'O', .lit ':', .unsigned 32]

/-- The `L` macro on one tag element. -/
def tagField (t : Tag) (e : List Char) : Tag :=
  if t.client = none then { t with client := some e }
  else if e = "M:A".toList then { t with active := true }
  else
    let r := sscanf hubsFormat e []
    let t := { t with hNorm := r.2.getD 0 t.hNorm, hReg := r.2.getD 1 t.hReg,
                      hOp := r.2.getD 2 t.hOp }
    if r.1 ≠ 0 then t
    else
      let r := sscanf slotsFormat e []
      let t := { t with slots := r.2.getD 0 t.slots }
      if r.1 ≠ 0 then t
      else { t with as := (sscanf autoFormat e []).2.getD 0 t.as }

/-- The tag's locals after reading every element. -/
def readTag (elems : List (List Char)) : Tag := elems.foldl tagField Tag.init

/-! ### `user_nmdc_nfo` -/

/-- What `user_nmdc_nfo` has read once it gets past its last early `return`: the cleaned
description, connection and e-mail (still hub-encoded), the tag and the share size. -/
structure NmdcInfo where
  desc : List Char
  conn : List Char
  mail : List Char
  tag : Tag
  share : Nat
  deriving DecidableEq, Repr

/-- The description part (before the first `$`) split into the text before the tag and
the tag's elements; no tag unless the part ends in `>` and holds a `<`. -/
def splitTag (str : List Char) : List Char × List (List Char) :=
  if str.getLast? = some '>' then
    match rindex '<' str with
    | some (desc, t) => (desc, t.dropLast.splitOn ',')
    | none => (str, [])
  else (str, [])

/-- The parsing half of `user_nmdc_nfo`: `none` where the C function returns early. -/
def parseNmdcInfo (str : List Char) : Option NmdcInfo := do
  let (pre, post) ← index '$' str
  let rest ← match post with
    | _ :: '$' :: rest => some rest
    | _ => none
  let (desc, elems) := splitTag pre
  let (conn, rest) ← index '$' rest
  let (mail, rest) ← index '$' rest
  let (share, _) ← index '$' rest
  pure ⟨cleanspace desc, cleanspace conn.dropLast, cleanspace mail, readTag elems,
    gAsciiStrtoull share⟩

/-- `s[0] ? f(s) : NULL` -/
def orNull (f : List Char → List Char) (s : List Char) : Option (List Char) :=
  if s = [] then none else some (f s)

/-- The storing half of `user_nmdc_nfo`. -/
def HubUser.setNmdcInfo (H : Helpers) (u : HubUser) (i : NmdcInfo) : HubUser :=
  { u with
    sharesize := i.share
    desc := orNull H.unescapeAndDecode i.desc
    client := i.tag.client.bind (orNull id)
    conn := orNull H.unescapeAndDecode i.conn
    mail := orNull H.unescapeAndDecode i.mail
    hNorm := i.tag.hNorm
    hReg := i.tag.hReg
    hOp := i.tag.hOp
    slots := i.tag.slots
    as := i.tag.as * 1024 % 2 ^ 32
    hasinfo := true
    active := i.tag.active }

/-- `user_nmdc_nfo(hub, u, str)`: a payload it rejects leaves the record as it was. -/
def userNmdcNfo (H : Helpers) (u : HubUser) (str : List Char) : HubUser :=
  match parseNmdcInfo str with
  | some i => u.setNmdcInfo H i
  | none => u

@[simp] theorem userNmdcNfo_sid (H : Helpers) (u : HubUser) (str : List Char) :
    (userNmdcNfo H u str).sid = u.sid := by
  unfold userNmdcNfo; split <;> rfl

@[simp] theorem userNmdcNfo_name (H : Helpers) (u : HubUser) (str : List Char) :
    (userNmdcNfo H u str).name = u.name := by
  unfold userNmdcNfo; split <;> rfl

@[simp] theorem userNmdcNfo_nameHub (H : Helpers) (u : HubUser) (str : List Char) :
    (userNmdcNfo H u str).nameHub = u.nameHub := by
  unfold userNmdcNfo; split <;> rfl

end Ncdc
