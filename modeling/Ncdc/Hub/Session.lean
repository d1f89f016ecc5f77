import Ncdc.Hub.User

/-!
The state of one hub connection (`struct hub`) and the handlers that do not use the NMDC
regexes. User records live on a heap shared by `hub->users` and `hub->sessions`; a handler
that reads freed memory or a `NULL` string returns `none`.
-/

namespace Ncdc

/-- The `ADC_S_*` protocol states. -/
inductive AdcState
  | protocol
  | identify
  | verify
  | normal
  | data
  deriving DecidableEq, Repr

/-- What a handler does to the world outside the hub record, in order. -/
inductive HubOut
  /-- `net_send`/`net_sendf` on the hub connection. -/
  | send (frame : List Char)
  /-- `net_disconnect(hub->net)`. -/
  | disconnect
  /-- `cc_connect(cc_create(hub), addr)`. -/
  | connectCc (addr : List Char)
  /-- `cc_expect_add(hub, nick)`. -/
  | expectCc (nick : List Char)
  /-- `nmdc_search(hub, from, size_m, size, type, query)`; it changes no hub state. -/
  | search (source : List Char) (sizeM : Int) (size : Nat) (type : Nat) (query : List Char)
  deriving DecidableEq, Repr

/-- What the handlers read from the configuration and from the rest of the program when
they run. -/
structure Conf where
  /-- `conf_hub_get(string, ..., "nick")`. -/
  nick : List Char
  description : Option (List Char)
  connection : Option (List Char)
  email : Option (List Char)
  password : Option (List Char)
  /-- `conf_slots()`. -/
  slots : Nat
  /-- `cc_listen ? (cc_listen_ip, cc_listen_port)`. -/
  listen : Option (List Char × Nat)
  /-- `fl_local_list_size`. -/
  share : Nat
  /-- The global `cid` and `pid` settings. -/
  cid : Option (List Char)
  pid : Option (List Char)
  /-- `isop`, `isreg` and `nick_valid` of every other open hub tab. -/
  otherHubs : List (Bool × Bool × Bool)

/-- A configuration with a nick and three slots, not listening, sharing nothing. -/
def Conf.plain : Conf :=
  ⟨"me".toList, none, none, none, none, 3, none, 0, none, none, []⟩

/-- `struct hub`, without the UI tab, the framing channel (its effects are `HubOut`s),
the grant list (used only by `hub_grant`) and the five-minute timer id. -/
structure Hub where
  adc : Bool
  state : AdcState
  nickHub : Option (List Char)
  nick : Option (List Char)
  sid : Nat
  nickValid : Bool
  isreg : Bool
  isop : Bool
  hubname : Option (List Char)
  hubnameHub : Option (List Char)
  /-- `hub->users`: key to user pointer. -/
  users : List (List Char × Nat)
  /-- `hub->sessions`: session id to user pointer. -/
  sessions : List (Nat × Nat)
  sharecount : Int
  sharesize : Nat
  supportsNogetinfo : Bool
  /-- `hub->reconnect_timer`, `0` for none. -/
  reconnectTimer : Nat
  /-- The reconnect timers the event loop holds, by source id. -/
  timers : List Nat
  nextSource : Nat
  nfoDesc : Option (List Char)
  nfoConn : Option (List Char)
  nfoMail : Option (List Char)
  nfoSlots : Nat
  nfoHNorm : Nat
  nfoHReg : Nat
  nfoHOp : Nat
  nfoShare : Nat
  nfoActive : Nat
  receivedFirst : Bool
  joincomplete : Bool
  /-- The user records, by pointer; `none` once freed (or never allocated). -/
  heap : Nat → Option HubUser
  /-- The next pointer `g_slice_new0` hands out. -/
  next : Nat

/-- `hub_create`: a zeroed record with empty tables. -/
def hubCreate : Hub where
  adc := false
  state := .protocol
  nickHub := none
  nick := none
  sid := 0
  nickValid := false
  isreg := false
  isop := false
  hubname := none
  hubnameHub := none
  users := []
  sessions := []
  sharecount := 0
  sharesize := 0
  supportsNogetinfo := false
  reconnectTimer := 0
  timers := []
  nextSource := 0
  nfoDesc := none
  nfoConn := none
  nfoMail := none
  nfoSlots := 0
  nfoHNorm := 0
  nfoHReg := 0
  nfoHOp := 0
  nfoShare := 0
  nfoActive := 0
  receivedFirst := false
  joincomplete := false
  heap := fun _ => none
  next := 0

/-! ### Tables -/

/-- `g_hash_table_insert` on an association list with unique keys, the key kept by value:
GLib keeps the old key pointer, which the rename of `adc_handle` leaves dangling. -/
def tableInsert {κ ν : Type} [DecidableEq κ] (t : List (κ × ν)) (k : κ) (v : ν) :
    List (κ × ν) :=
  if (t.lookup k).isSome then t.map fun e => if e.1 = k then (e.1, v) else e
  else (k, v) :: t

/-- `g_hash_table_steal`, and the unlinking half of `g_hash_table_remove`. -/
def tableErase {κ ν : Type} [DecidableEq κ] (t : List (κ × ν)) (k : κ) : List (κ × ν) :=
  t.filter fun e => e.1 ≠ k

theorem lookup_decEq {ν : Type} (t : List (List Char × ν)) (k : List Char) :
    @List.lookup _ _ instBEqOfDecidableEq k t = t.lookup k := by
  congr; exact lawful_beq_subsingleton _ _

theorem lookup_cons_of_ne {ν : Type} {k a : List Char} (b : ν) (t : List (List Char × ν))
    (h : k ≠ a) : ((a, b) :: t).lookup k = t.lookup k := by
  rw [List.lookup_cons, beq_eq_false_iff_ne.2 h]

theorem lookup_map_set {ν : Type} (t : List (List Char × ν)) (k k' : List Char) (v : ν) :
    (t.map fun e => if e.1 = k then (e.1, v) else e).lookup k' =
      if k' = k then (t.lookup k).map fun _ => v else t.lookup k' := by
  induction t with
  | nil => split <;> rfl
  | cons e t ih =>
      obtain ⟨a, b⟩ := e
      rw [List.map_cons]
      by_cases ha : k' = a
      · subst ha
        by_cases hk : k' = k
        · subst hk; simp
        · simp [hk]
      · dsimp only
        have hhead : ∀ x : List (List Char × ν),
            ((if a = k then (a, v) else (a, b)) :: x).lookup k' = x.lookup k' := fun x => by
          split <;> exact lookup_cons_of_ne _ _ ha
        rw [hhead, ih]
        by_cases hk : k' = k
        · subst hk; rw [if_pos rfl, if_pos rfl, lookup_cons_of_ne _ _ ha]
        · rw [if_neg hk, if_neg hk, lookup_cons_of_ne _ _ ha]

theorem lookup_tableInsert {ν : Type} (t : List (List Char × ν)) (k k' : List Char) (v : ν) :
    (tableInsert t k v).lookup k' = if k' = k then some v else t.lookup k' := by
  unfold tableInsert
  rw [lookup_decEq]
  split
  · rename_i hk
    rw [lookup_map_set]
    split
    · obtain ⟨x, hx⟩ := Option.isSome_iff_exists.1 hk
      rw [hx]; rfl
    · rfl
  · by_cases h : k' = k
    · subst h; simp
    · rw [if_neg h, lookup_cons_of_ne _ _ h]

theorem lookup_tableErase {ν : Type} (t : List (List Char × ν)) (k k' : List Char) :
    (tableErase t k).lookup k' = if k' = k then none else t.lookup k' := by
  induction t with
  | nil => split <;> rfl
  | cons e t ih =>
      obtain ⟨a, b⟩ := e
      unfold tableErase at ih ⊢
      rw [List.filter_cons]
      by_cases ha : a = k
      · subst ha
        rw [if_neg (by simp), ih]
        by_cases h : k' = a
        · rw [if_pos h, if_pos h]
        · rw [if_neg h, if_neg h, lookup_cons_of_ne _ _ h]
      · rw [if_pos (by simpa using ha)]
        by_cases h : k' = a
        · subst h; rw [if_neg ha]; simp
        · rw [lookup_cons_of_ne _ _ h, ih]
          by_cases hk : k' = k
          · rw [if_pos hk, if_pos hk]
          · rw [if_neg hk, if_neg hk, lookup_cons_of_ne _ _ h]

/-- `user_free` on a pointer. -/
def Hub.free (h : Hub) (p : Nat) : Hub :=
  { h with heap := Function.update h.heap p none }

/-- A store through a user pointer. -/
def Hub.setUser (h : Hub) (p : Nat) (u : HubUser) : Hub :=
  { h with heap := Function.update h.heap p (some u) }

@[simp] theorem Hub.setUser_nickHub (h : Hub) (p : Nat) (u : HubUser) :
    (h.setUser p u).nickHub = h.nickHub := rfl

/-- `g_hash_table_insert(hub->users, k, p)`: a value it replaces is freed. -/
def Hub.usersInsert (h : Hub) (k : List Char) (p : Nat) : Hub :=
  let h' := { h with users := tableInsert h.users k p }
  match h.users.lookup k with
  | some q => h'.free q
  | none => h'

@[simp] theorem Hub.usersInsert_nickHub (h : Hub) (k : List Char) (p : Nat) :
    (h.usersInsert k p).nickHub = h.nickHub := by
  unfold Hub.usersInsert; split <;> rfl

/-- `g_hash_table_remove(hub->users, k)`: the value is freed. -/
def Hub.usersRemove (h : Hub) (k : List Char) : Hub :=
  let h' := { h with users := tableErase h.users k }
  match h.users.lookup k with
  | some q => h'.free q
  | none => h'

/-- `g_hash_table_steal(hub->users, k)`. -/
def Hub.usersSteal (h : Hub) (k : List Char) : Hub :=
  { h with users := tableErase h.users k }

/-- `g_hash_table_insert(hub->sessions, sid, p)`. -/
def Hub.sessionsInsert (h : Hub) (sid p : Nat) : Hub :=
  { h with sessions := tableInsert h.sessions sid p }

/-- `g_hash_table_remove_all` on both tables: every value of `hub->users` is freed. -/
def Hub.removeAll (h : Hub) : Hub :=
  { h with
    users := []
    sessions := []
    heap := fun q => if q ∈ h.users.map Prod.snd then none else h.heap q }

/-! ### `user_add` and `hub_disconnect` -/

/-- `user_add(hub, name)`: the user under `name`, or a new record stored under it. -/
def userAdd (H : Helpers) (h : Hub) (name : List Char) : Hub × Nat :=
  match h.users.lookup name with
  | some p => (h, p)
  | none =>
      let u := if h.adc then { HubUser.empty with name := name }
        else { HubUser.empty with nameHub := some name, name := H.toUtf8 name }
      (({ h with next := h.next + 1 }.setUser h.next u).usersInsert name h.next, h.next)

@[simp] theorem userAdd_nickHub (H : Helpers) (h : Hub) (name : List Char) :
    (userAdd H h name).1.nickHub = h.nickHub := by
  unfold userAdd; split <;> simp

/-- `hub_disconnect(hub, recon)`. -/
def hubDisconnect (h : Hub) (recon : Bool) : Hub × List HubOut :=
  let h := { h.removeAll with
    nick := none
    nickHub := none
    hubname := none
    hubnameHub := none
    nickValid := false
    isreg := false
    isop := false
    receivedFirst := false
    joincomplete := false
    sharecount := 0
    sharesize := 0
    supportsNogetinfo := false
    state := .protocol }
  let h := if recon then
      { h with
        reconnectTimer := h.nextSource + 1
        timers := (h.nextSource + 1) :: h.timers
        nextSource := h.nextSource + 1 }
    else if h.reconnectTimer ≠ 0 then
      { h with timers := h.timers.erase h.reconnectTimer, reconnectTimer := 0 }
    else h
  (h, [.disconnect])

/-! ### `hub_send_nfo` -/

/-- The NMDC `$MyINFO` that `hub_send_nfo` formats; `printf` writes `(null)` for an unset
own nick. -/
def nmdcMyinfoFrame (H : Helpers) (nickHub : Option (List Char)) (desc conn mail : List Char)
    (active : Bool) (hNorm hReg hOp slots share : Nat) : List Char :=
  "$MyINFO $ALL ".toList ++ nickHub.getD "(null)".toList ++ ' ' :: H.encodeAndEscape desc ++
    "<ncdc V:".toList ++ H.version ++ ",M:".toList ++ (if active then 'A' else 'P') ::
    ",H:".toList ++ decimal hNorm ++ '/' :: decimal hReg ++ '/' :: decimal hOp ++
    ",S:".toList ++ decimal slots ++ ">$ $".toList ++ H.encodeAndEscape conn ++
    '\x01' :: '$' :: H.encodeAndEscape mail ++ '$' :: decimal share ++ ['$']

/-- The hub counts of `hub_send_nfo`: one per open hub tab by the discriminator op,
registered, validated, plus one normal hub for this one while it is not validated. -/
def hubCounts (c : Conf) (h : Hub) : Nat × Nat × Nat :=
  let tabs := (h.isop, h.isreg, h.nickValid) :: c.otherHubs
  let op := (tabs.filter fun t => t.1).length
  let reg := (tabs.filter fun t => !t.1 && t.2.1).length
  let norm := (tabs.filter fun t => !t.1 && !t.2.1 && t.2.2).length
  ((norm + if h.nickValid then 0 else 1) % 256, reg % 256, op % 256)

/-- The ADC `BINF` that `hub_send_nfo` builds: everything in the IDENTIFY state, and
otherwise only the fields that changed since the last one sent. -/
def adcInfFrame (H : Helpers) (c : Conf) (h : Hub) (slots hNorm hReg hOp : Nat) :
    List Char :=
  let f := h.state = .identify
  let ident := if f then
      " ID".toList ++ c.cid.getD "(null)".toList ++ " PD".toList ++
        c.pid.getD "(null)".toList ++ " I40.0.0.0 VEncdc\\s".toList ++ H.version ++
        H.adcAppend "NI".toList (h.nick.getD [])
    else []
  let num (key : List Char) (v old : Nat) := if f ∨ v ≠ old then ' ' :: key ++ decimal v else []
  let str (key : List Char) (v old : Option (List Char)) :=
    if f ∨ v ≠ old then H.adcAppend key (v.getD []) else []
  H.adcGenerate 'B' "INF".toList h.sid ++ ident ++ num "SL".toList slots h.nfoSlots ++
    num "HN".toList hNorm h.nfoHNorm ++ num "HR".toList hReg h.nfoHReg ++
    num "HO".toList hOp h.nfoHOp ++ str "DE".toList c.description h.nfoDesc ++
    str "EM".toList c.email h.nfoMail

/-- `hub_send_nfo(hub)`: nothing is sent while the hub is validated and every watched
value equals the one last sent; otherwise one frame is sent and the cache updated. -/
def hubSendNfo (H : Helpers) (c : Conf) (h : Hub) : Hub × List HubOut :=
  let (hNorm, hReg, hOp) := hubCounts c h
  let slots := c.slots % 256
  let active := (c.listen.map Prod.snd).getD 0 % 65536
  let share := c.share % 2 ^ 64
  if h.nickValid ∧ c.description = h.nfoDesc ∧ c.connection = h.nfoConn ∧
      c.email = h.nfoMail ∧ slots = h.nfoSlots ∧ hNorm = h.nfoHNorm ∧ hReg = h.nfoHReg ∧
      hOp = h.nfoHOp ∧ share = h.nfoShare ∧ active = h.nfoActive then (h, [])
  else
    let nfo := if h.adc then adcInfFrame H c h slots hNorm hReg hOp
      else nmdcMyinfoFrame H h.nickHub (c.description.getD []) (c.connection.getD [])
        (c.email.getD []) (active ≠ 0) hNorm hReg hOp slots share
    ({ h with
        nfoDesc := c.description
        nfoConn := c.connection
        nfoMail := c.email
        nfoSlots := slots
        nfoHNorm := hNorm
        nfoHReg := hReg
        nfoHOp := hOp
        nfoShare := share
        nfoActive := active }, [.send nfo])

/-! ### `user_adc_nfo` -/

/-- `guint64` arithmetic on the share total. -/
def add64 (a b : Nat) : Nat := (a + b) % 2 ^ 64

/-- `guint64` subtraction on the share total. -/
def sub64 (a b : Nat) : Nat := (a + (2 ^ 64 - b % 2 ^ 64)) % 2 ^ 64

/-- One case of the `switch` in `user_adc_nfo` other than `NI`, on the field's two-letter
key and its value. `AS` stores into `slots`, as the source does. -/
def adcField (H : Helpers) (u : HubUser) (a b : Char) (p : List Char) : HubUser :=
  match a, b with
  | 'D', 'E' => { u with desc := orNull id p }
  | 'V', 'E' => { u with client := orNull id p }
  | 'E', 'M' => { u with mail := orNull id p }
  | 'I', 'D' => if p.length = 39 then { u with cid := H.base32Decode p } else u
  | 'S', 'S' => { u with sharesize := gAsciiStrtoull p }
  | 'H', 'N' => { u with hNorm := toUChar (strtol p) }
  | 'H', 'R' => { u with hReg := toUChar (strtol p) }
  | 'H', 'O' => { u with hOp := toUChar (strtol p) }
  | 'S', 'L' => { u with slots := toUChar (strtol p) }
  | 'A', 'S' => { u with slots := toUChar (strtol p) }
  | 'S', 'U' => { u with active := strstr p "TCP4".toList || strstr p "TCP6".toList }
  | 'C', 'T' => { u with isop := decide (4 ≤ strtol p) }
  | _, _ => u

/-- One parameter of the loop in `user_adc_nfo`. `NI` re-keys the user in `hub->users`:
the entry under its old name is stolen and the record stored under the new one, which
frees whatever record that name held. -/
def adcNfoArg (H : Helpers) (p : Nat) (h : Hub) (arg : List Char) : Option Hub :=
  match arg with
  | 'N' :: 'I' :: v => do
      let u ← h.heap p
      some (((h.usersSteal u.name).setUser p { u with name := v }).usersInsert v p)
  | a :: b :: v => do
      let u ← h.heap p
      some (h.setUser p (adcField H u a b v))
  | _ => some h

/-- `user_adc_nfo(hub, u, cmd)`: the first info from a session registers the record in
`hub->sessions` under the command's source. -/
def userAdcNfo (H : Helpers) (h : Hub) (p : Nat) (c : AdcCmd) : Option Hub := do
  let u ← h.heap p
  let h := if u.sid = 0 then h.sessionsInsert c.source p else h
  let h := h.setUser p { u with hasinfo := true, sid := c.source }
  c.argv.foldlM (adcNfoArg H p) h

/-! ### `adc_handle` -/

/-- Modelled from the spec: `adc_getparam(argv, name, &left)`, the value of the first
parameter that starts with the two-letter `name`, and the parameters after it. -/
def adcGetparam (argv : List (List Char)) (name : List Char) :
    Option (List Char × List (List Char)) :=
  match argv with
  | [] => none
  | a :: rest => if name.isPrefixOf a then some (a.drop 2, rest) else adcGetparam rest name

/-- The `BINF` case of `adc_handle`: the user by source session, or else by `NI`. -/
def adcBinf (H : Helpers) (h : Hub) (c : AdcCmd) : Option Hub :=
  let found : Hub × Option Nat :=
    match h.sessions.lookup c.source, adcGetparam c.argv "NI".toList with
    | some p, _ => (h, some p)
    | none, some (nick, _) => let r := userAdd H h nick; (r.1, some r.2)
    | none, none => (h, none)
  match found with
  | (h, none) => some h
  | (h, some p) => do
      let u ← h.heap p
      let h := if u.hasinfo then { h with sharesize := sub64 h.sharesize u.sharesize }
        else { h with sharecount := h.sharecount + 1 }
      let h ← userAdcNfo H h p c
      let u ← h.heap p
      let h := { h with sharesize := add64 h.sharesize u.sharesize }
      if u.sid = h.sid then some { h with joincomplete := h.receivedFirst, receivedFirst := true }
      else some h

/-- The `IINF` case: the hub's name, and the move to NORMAL. With one `NI` the name is
not taken: `left` is set, and the second lookup finds nothing. -/
def adcIinf (h : Hub) (c : AdcCmd) : Hub :=
  let hname := match adcGetparam c.argv "NI".toList with
    | some (_, left) => (adcGetparam left "NI".toList).map Prod.fst
    | none => none
  let h := match hname with
    | some n => { h with hubname := some n }
    | none => h
  if h.state = .identify ∨ h.state = .verify then { h with state := .normal, nickValid := true }
  else h

/-- The `IQUI` case: the hub's own session id ends the connection; another user's record
is unlinked from `hub->users` under its current name. `hub->sessions` keeps its entry. -/
def adcQui (H : Helpers) (h : Hub) (c : AdcCmd) : Option (Hub × List HubOut) :=
  match c.argv with
  | a :: _ =>
      if c.type ≠ 'I' ∨ a.length ≠ 4 then some (h, [])
      else if H.adcDfcc a = h.sid then some (hubDisconnect h true)
      else
        match h.sessions.lookup (H.adcDfcc a) with
        | some p => do
            let u ← h.heap p
            some ({ h with sharecount := h.sharecount - 1
                           sharesize := sub64 h.sharesize u.sharesize }.usersRemove u.name, [])
        | none => some (h, [])
  | [] => some (h, [])

/-- The `ISTA` case: the second character of the code is tested for the severity. -/
def adcSta (h : Hub) (c : AdcCmd) : Hub × List HubOut :=
  match c.argv with
  | [_, b, _] :: _ :: _ => if b = '2' then hubDisconnect h false else (h, [])
  | _ => (h, [])

/-- The `ISID` case: adopt the session id, move to IDENTIFY and send the first `BINF`. -/
def adcSid (H : Helpers) (conf : Conf) (h : Hub) (c : AdcCmd) : Hub × List HubOut :=
  match c.argv with
  | [a] =>
      if h.state = .protocol ∧ c.type = 'I' ∧ a.length = 4 then
        hubSendNfo H conf { h with sid := H.adcDfcc a, state := .identify, nick := some conf.nick }
      else (h, [])
  | _ => (h, [])

/-- The `switch` of `adc_handle` on a parsed command. -/
def adcHandleCmd (H : Helpers) (conf : Conf) (h : Hub) (c : AdcCmd) :
    Option (Hub × List HubOut) :=
  if c.cmd = "SID".toList then some (adcSid H conf h c)
  else if c.cmd = "INF".toList then
    if c.type = 'I' then some (adcIinf h c, [])
    else if c.type = 'B' then (adcBinf H h c).map fun h => (h, [])
    else some (h, [])
  else if c.cmd = "QUI".toList then adcQui H h c
  else if c.cmd = "STA".toList then some (adcSta h c)
  else some (h, [])

/-- `adc_handle(hub, msg)`: empty and unparsable frames are dropped. -/
def adcHandle (H : Helpers) (conf : Conf) (h : Hub) (msg : List Char) :
    Option (Hub × List HubOut) :=
  if msg = [] then some (h, [])
  else
    match H.adcParse msg with
    | some c => adcHandleCmd H conf h c
    | none => some (h, [])

end Ncdc
