import Ncdc.Hub.User
import Ncdc.Regex

/-!
The client-to-client sessions of `nmdc_cc.c`: the registry `nmdc_cc_list`, each session's
`struct nmdc_cc`, its deferred-free timeouts and the handlers. The transport `struct net` is
not in src/ and follows the spec. A step that reads a freed session returns `none`.
-/

namespace Ncdc

/-! ### State -/

/-- The phase of a session's transport; `c->net->conn` is set exactly while `connected`. -/
inductive NetPhase
  | connecting
  | connected
  | closed
  deriving DecidableEq, Repr

/-- What `nmdc_cc.c` reads and writes of a `struct net`. `slot` is not a field of the C
record: it records whether the file transfer `net_sendfile` started needed a slot. -/
structure Net where
  phase : NetPhase
  fileLeft : Nat
  slot : Bool
  deriving DecidableEq, Repr

/-- Modelled from the spec: `net_sendfile(n, path, start, bytes)`, a connected transport
streams `bytes` bytes. -/
def Net.sendfile (n : Net) (bytes : Nat) (slot : Bool) : Net :=
  if n.phase = .connected then { n with fileLeft := bytes, slot := slot } else n

/-- Modelled from the spec: `net_disconnect(n)`, the socket is closed and both buffers
dropped. -/
def Net.disconnect (n : Net) : Net := { n with phase := .closed, fileLeft := 0 }

/-- `struct nmdc_cc` without `last_action`, which only code outside src/ reads. `accepted` records
that `handle_mynick` returned without disconnecting. -/
structure CcSession where
  net : Net
  hub : Option Nat
  nickRaw : Option (List Char)
  nick : Option (List Char)
  timeoutSrc : Nat
  lastFile : Option (List Char)
  lastSize : Nat
  lastLength : Nat
  lastOffset : Nat
  err : Option (List Char)
  accepted : Bool
  deriving DecidableEq, Repr

/-- A session as `nmdc_cc_create` allocates it, around a transport in the given phase. -/
def CcSession.new (hub : Option Nat) (phase : NetPhase) : CcSession :=
  ⟨⟨phase, 0, false⟩, hub, none, none, 0, none, 0, 0, 0, none, false⟩

/-- What `nmdc_cc.c` reads of a `struct nmdc_hub`: the roster `users`, each hub-encoded
nick with the user's UTF-8 name, and the own `nick_hub`. -/
structure CcHub where
  users : List (List Char × List Char)
  nickHub : Option (List Char)

/-- What `handle_adcget` asks of the local share and the file system. -/
structure Share where
  /-- `fl_local_list_file` -/
  listFile : List Char
  /-- `fl_local_list != NULL` -/
  hasList : Bool
  /-- `g_utf8_validate(id, -1, NULL)` -/
  validUtf8 : List Char → Bool
  /-- `fl_list_from_path(fl_local_list, id)`; when found, the file-system path
  `g_filename_from_utf8(fl_local_path(f))` (`none` if the conversion fails) and
  `fl_list_path(f)`. -/
  fromPath : List Char → Option (Option (List Char) × List Char)
  /-- The first file of `fl_local_from_tth(root)`, with the same two paths. -/
  fromTth : List Nat → Option (Option (List Char) × List Char)
  /-- `fl_hashdat_get(root, &len)` -/
  hashdat : List Nat → Option (List Nat)
  /-- `stat(path, &st)`: whether it is a regular file, and its size. -/
  stat : List Char → Option (Bool × Nat)

/-- Everything the C-C handlers read from outside the sessions: the routines `Helpers`
bundles, the share, `conf_slots()` and the `PACKAGE_NAME-PACKAGE_VERSION` of `$Lock`. -/
structure CcEnv where
  helpers : Helpers
  share : Share
  slots : Nat
  pk : List Char

/-- The registry and the main loop's pending timeouts: `nmdc_cc_list` (newest first), the records by
pointer, the next fresh pointer, each `g_timeout_add_seconds` source with the session it frees, the
last source id, and the hubs. -/
structure Cc where
  list : List Nat
  heap : Nat → Option CcSession
  next : Nat
  timers : List (Nat × Nat)
  nextSource : Nat
  hubs : Nat → Option CcHub

/-- No session, no timeout and no hub. -/
def Cc.init : Cc := ⟨[], fun _ => none, 0, [], 0, fun _ => none⟩

/-- A store through a session pointer. -/
def Cc.setSession (s : Cc) (p : Nat) (c : CcSession) : Cc :=
  { s with heap := Function.update s.heap p (some c) }

@[simp] theorem Cc.setSession_heap_self (s : Cc) (p : Nat) (c : CcSession) :
    (s.setSession p c).heap p = some c := by simp [Cc.setSession]

@[simp] theorem Cc.setSession_heap_ne (s : Cc) {p q : Nat} (c : CcSession) (h : q ≠ p) :
    (s.setSession p c).heap q = s.heap q := by simp [Cc.setSession, h]

@[simp] theorem Cc.setSession_list (s : Cc) (p : Nat) (c : CcSession) :
    (s.setSession p c).list = s.list := rfl

@[simp] theorem Cc.setSession_timers (s : Cc) (p : Nat) (c : CcSession) :
    (s.setSession p c).timers = s.timers := rfl

@[simp] theorem Cc.setSession_hubs (s : Cc) (p : Nat) (c : CcSession) :
    (s.setSession p c).hubs = s.hubs := rfl

/-- What a session sends: a command frame, raw bytes, or a byte range of a file. -/
inductive CcOut
  | send (frame : List Char)
  | sendRaw (bytes : List Nat)
  | sendfile (path : List Char) (offset length : Nat)
  deriving DecidableEq, Repr

/-- `net_send` and its variants: what is sent leaves only on a connected transport. -/
def netSend (c : CcSession) (o : CcOut) : List CcOut :=
  if c.net.phase = .connected then [o] else []

/-! ### The registry -/

/-- `nmdc_cc_create(hub)`: a new session, prepended to `nmdc_cc_list`. -/
def nmdcCcCreate (s : Cc) (hub : Option Nat) (phase : NetPhase) : Cc × Nat :=
  ({ s with
      heap := Function.update s.heap s.next (some (CcSession.new hub phase))
      next := s.next + 1
      list := s.next :: s.list }, s.next)

/-- `nmdc_cc_disconnect(cc)`: close the transport and arm a new 30-second timeout that frees
the session. A timeout armed before is neither removed nor remembered. -/
def nmdcCcDisconnect (s : Cc) (p : Nat) (c : CcSession) : Cc :=
  { s.setSession p { c with net := c.net.disconnect, timeoutSrc := s.nextSource + 1 } with
    timers := s.timers ++ [(s.nextSource + 1, p)]
    nextSource := s.nextSource + 1 }

/-- `nmdc_cc_free(cc)`: disconnect, unlink from `nmdc_cc_list` and free. -/
def nmdcCcFree (s : Cc) (p : Nat) : Option Cc := do
  let c ← s.heap p
  let s := nmdcCcDisconnect s p c
  some { s with list := s.list.erase p, heap := Function.update s.heap p none }

/-- `handle_timeout(cc)`: the source `src` fires once and frees its session. -/
def NmdcCc.handleTimeout (s : Cc) (src p : Nat) : Option Cc :=
  nmdcCcFree { s with timers := s.timers.erase (src, p) } p

/-- `nmdc_cc_slots_in_use()`: the listed sessions whose transport has file bytes left. -/
def nmdcCcSlotsInUse (s : Cc) : Option Nat :=
  s.list.foldr (fun q r => do
    let c ← s.heap q
    let n ← r
    some (if c.net.fileLeft ≠ 0 then n + 1 else n)) (some 0)

/-- `nmdc_cc_get_conn(hub, user)`: the first listed session of `hub` that is connected and
holds the raw nick `user`. -/
def nmdcCcGetConn (s : Cc) (hub : Option Nat) (user : List Char) : Option (Option Nat) :=
  s.list.foldr (fun q r => do
    let c ← s.heap q
    if c.nickRaw = some user ∧ c.hub = hub ∧ c.net.phase = .connected then some (some q)
    else r) (some none)

/-- `nmdc_cc_remove_hub(hub)`: every listed session of `hub` forgets it. -/
def nmdcCcRemoveHub (s : Cc) (hid : Nat) : Option Cc :=
  s.list.foldlM (fun s q => do
    let c ← s.heap q
    some (if c.hub = some hid then s.setSession q { c with hub := none } else s)) s

/-! ### The static functions of `nmdc_cc.c` -/

namespace NmdcCc

/-! ### ADC escapes -/

/-- `adc_unescape(str)`: `none` on an unknown escape or a trailing backslash. -/
def adcUnescape : List Char → Option (List Char)
  | [] => some []
  | '\\' :: 's' :: s => (adcUnescape s).map (' ' :: ·)
  | '\\' :: 'n' :: s => (adcUnescape s).map ('\n' :: ·)
  | '\\' :: '\\' :: s => (adcUnescape s).map ('\\' :: ·)
  | '\\' :: _ => none
  | c :: s => (adcUnescape s).map (c :: ·)

/-- `adc_escape(str)` -/
def adcEscape : List Char → List Char
  | [] => []
  | c :: s =>
      (if c = ' ' then ['\\', 's'] else if c = '\n' then ['\\', 'n']
        else if c = '\\' then ['\\', '\\'] else [c]) ++ adcEscape s

/-! ### The command regexes of `handle_cmd` -/

/-- `\$MyNick ([^ $]+)` -/
def matchMyNick (s : List Char) : Option (List Char) := do
  let s ← literal "$MyNick ".toList s
  let (nick, _) ← word s
  pure nick

/-- The captures of `\$ADCGET ([^ $]+) ([^ ]+) ([0-9]+) (-?[0-9]+)`. -/
structure AdcgetArgs where
  type : List Char
  id : List Char
  start : List Char
  bytes : List Char

/-- `\$ADCGET ([^ $]+) ([^ ]+) ([0-9]+) (-?[0-9]+)` -/
def matchAdcget (s : List Char) : Option AdcgetArgs := do
  let s ← literal "$ADCGET ".toList s
  let (type, s) ← word s
  let s ← literal [' '] s
  let (id, s) ← field s
  let s ← literal [' '] s
  let (start, s) ← digitsRun s
  let s ← literal [' '] s
  let (sign, s) := match s with
    | '-' :: s => (['-'], s)
    | s => ([], s)
  let (bytes, _) ← digitsRun s
  pure ⟨type, id, start, sign ++ bytes⟩

/-! ### `handle_adcget` -/

/-- What `handle_adcget` leaves: the registry, what the session sent, and the error it set
(`1` for "no slots", `0` for any other). -/
abbrev AdcgetResult := Cc × List CcOut × Option (Nat × List Char)

section Adcget

variable (E : CcEnv) (s : Cc) (p : Nat) (c : CcSession)

/-- The `tthl` case: the hash-tree blob of a `TTH/` root. -/
def adcgetTthl (id : List Char) (start : Nat) (bytes : Int) : AdcgetResult :=
  if ¬("TTH/".toList.isPrefixOf id ∧ id.length = 4 + 39 ∧ start = 0 ∧ bytes = -1) then
    (s, [], some (0, "Invalid ADCGET arguments".toList))
  else
    match E.share.hashdat (E.helpers.base32Decode (id.drop 4)) with
    | none => (s, [], some (0, "File Not Available".toList))
    | some dat =>
        (s, netSend c (.send ("$ADCSND tthl ".toList ++ id ++ " 0 ".toList ++
            decimal dat.length)) ++ netSend c (.sendRaw dat), none)

/-- The file a `file` request names: the file-system path (`none` is `NULL`), the virtual
path (`none` when `vpath` is left uninitialized) and whether a slot is needed. -/
def adcgetResolve (id : List Char) : Option (List Char) × Option (List Char) × Bool :=
  if id = "files.xml.bz2".toList then
    (some E.share.listFile, some "files.xml.bz2".toList, false)
  else
    let f :=
      if id.head? = some '/' ∧ E.share.hasList ∧ E.share.validUtf8 id then E.share.fromPath id
      else if "TTH/".toList.isPrefixOf id ∧ id.length = 4 + 39 then
        E.share.fromTth (E.helpers.base32Decode (id.drop 4))
      else none
    match f with
    | some (path, vpath) => (path, some vpath, true)
    | none => (none, none, true)

/-- An admitted `file` request: remember it and start streaming. -/
def adcgetSend (id path vpath : List Char) (start bytes size : Nat) (slot : Bool) :
    AdcgetResult :=
  let c' := { c with
    lastFile := some vpath, lastLength := bytes, lastOffset := start, lastSize := size
    net := c.net.sendfile bytes slot }
  (s.setSession p c',
    netSend c (.send ("$ADCSND file ".toList ++ adcEscape id ++ ' ' :: decimal start ++
      ' ' :: decimal bytes)) ++ netSend c (.sendfile path start bytes), none)

/-- The length a `file` request streams: the rest of the file when `bytes` is negative or
asks for more than is left. -/
def adcgetLength (size start : Nat) (bytes : Int) : Nat :=
  if bytes < 0 ∨ (size - start : Int) < bytes then size - start else bytes.toNat

/-- `handle_adcget(cc, type, id, start, bytes, &err)`; `none` where it frees the
uninitialized `vpath`. -/
def handleAdcget (type id : List Char) (start : Nat) (bytes : Int) : Option AdcgetResult :=
  if type = "tthl".toList then some (adcgetTthl E s c id start bytes)
  else if type ≠ "file".toList then some (s, [], some (0, "Unsupported ADCGET type".toList))
  else
    let (path, vpath, needslot) := adcgetResolve E id
    let notAvailable : Option AdcgetResult :=
      vpath.map fun _ => (s, [], some (0, "File Not Available".toList))
    match path, vpath, path.bind E.share.stat with
    | some path, some vpath, some (true, size) =>
        if size < start then notAvailable
        else
          let bytes := adcgetLength size start bytes
          if needslot ∧ 16 * 1024 ≤ size then do
            let n ← nmdcCcSlotsInUse s
            if n < E.slots then some (adcgetSend s p c id path vpath start bytes size true)
            else some (s, [], some (1, "No Slots Available".toList))
          else some (adcgetSend s p c id path vpath start bytes size false)
    | _, _, _ => notAvailable

end Adcget

/-! ### `handle_cmd` and the other callbacks -/

/-- One test of `handle_cmd` with its action, on the session `p`. -/
def CcBranch := Cc → Option (Cc × List CcOut)

/-- `handle_mynick(cc, nick)` -/
def handleMynick (s : Cc) (p : Nat) (nick : List Char) : Option Cc := do
  let c ← s.heap p
  if c.nick.isSome then some s
  else
    match c.hub with
    | none => some (nmdcCcDisconnect s p c)
    | some hid => do
        let hub ← s.hubs hid
        match hub.users.lookup nick with
        | none => some (nmdcCcDisconnect s p { c with err := some "User is not on the hub".toList })
        | some name => do
            let dup ← nmdcCcGetConn s c.hub nick
            let c := { c with nickRaw := some nick, nick := some name }
            match dup with
            | some _ => some (nmdcCcDisconnect s p
                { c with err := some "too many open connections with this user".toList })
            | none => some (s.setSession p { c with accepted := true })

section Branches

variable (E : CcEnv) (p : Nat) (cmd : List Char)

/-- `$MyNick` -/
def ccMynick : CcBranch := fun s =>
  match matchMyNick cmd with
  | none => some (s, [])
  | some nick => (handleMynick s p nick).map (·, [])

/-- `$Lock`: a client without `EXTENDEDPROTOCOL` cannot talk to us. -/
def ccLock : CcBranch := fun s =>
  match matchLock cmd with
  | none => some (s, [])
  | some lock => do
      let c ← s.heap p
      if "EXTENDEDPROTOCOL".toList.isPrefixOf lock then
        some (s, netSend c (.send "$Supports MiniSlots XmlBZList ADCGet TTHL TTHF".toList) ++
          netSend c (.send "$Direction Upload 0".toList) ++
          netSend c (.send ("$Key ".toList ++ E.helpers.lock2key lock)))
      else
        some (nmdcCcDisconnect s p { c with err := some "Client does not support ADCGet".toList },
          [])

/-- `$Supports`: the client must support `ADCGet`. -/
def ccSupports : CcBranch := fun s =>
  match matchSupports cmd with
  | none => some (s, [])
  | some list => do
      let c ← s.heap p
      if strstr list "ADCGet".toList then some (s, [])
      else
        some (nmdcCcDisconnect s p { c with err := some "Client does not support ADCGet".toList },
          [])

/-- `$ADCGET`: only after `$MyNick`; an error of `handle_adcget` is answered with `$Error`
or, for missing slots, `$MaxedOut`. -/
def ccAdcget : CcBranch := fun s =>
  match matchAdcget cmd with
  | none => some (s, [])
  | some a => do
      let c ← s.heap p
      if c.nick = none then
        some (nmdcCcDisconnect s p { c with err := some "Received $ADCGET before $MyNick".toList },
          [])
      else
        match adcUnescape a.id with
        | none => some (s, [])
        | some id => do
            let (s, out, err) ← handleAdcget E s p c a.type id (gAsciiStrtoull a.start)
              (strtol a.bytes)
            match err with
            | none => some (s, out)
            | some (code, msg) => do
                let c ← s.heap p
                some (s.setSession p { c with err := some msg }, out ++
                  netSend c (.send (if code = 0 then "$Error ".toList ++ msg
                    else "$MaxedOut".toList)))

end Branches

/-- Run one branch after the ones before it, keeping what is sent in order. -/
def runCcBranch (r : Cc × List CcOut) (b : CcBranch) : Option (Cc × List CcOut) :=
  (b r.1).map fun r' => (r'.1, r.2 ++ r'.2)

/-- `handle_cmd(net, cmd)`: the error is cleared, then every regex is tried in turn. -/
def handleCmd (E : CcEnv) (s : Cc) (p : Nat) (cmd : List Char) : Option (Cc × List CcOut) := do
  let c ← s.heap p
  [ccMynick p cmd, ccLock E p cmd, ccSupports p cmd, ccAdcget E p cmd].foldlM runCcBranch
    (s.setSession p { c with err := none }, [])

/-- `handle_connect(net)`: a hub-less session is dropped; otherwise we introduce ourselves. -/
def handleConnect (E : CcEnv) (s : Cc) (p : Nat) : Option (Cc × List CcOut) := do
  let c ← s.heap p
  match c.hub with
  | none => some (nmdcCcDisconnect s p c, [])
  | some hid => do
      let h ← s.hubs hid
      some (s, netSend c (.send ("$MyNick ".toList ++ h.nickHub.getD "(null)".toList)) ++
        netSend c (.send ("$Lock EXTENDEDPROTOCOL/wut? Pk=".toList ++ E.pk)))

/-- `handle_error(net, action, err)`: keep the transport's message and disconnect. -/
def handleError (s : Cc) (p : Nat) (msg : List Char) : Option Cc := do
  let c ← s.heap p
  some (nmdcCcDisconnect s p { c with err := some msg })

end NmdcCc

open NmdcCc

/-! ### Events -/

/-- What can happen to the sessions: the hub code dials a peer, the listener accepts one,
a transport connects, delivers a frame or an error, or streams file bytes, other code
disconnects or frees a session, a timeout fires, and a hub is opened, changed or closed. -/
inductive CcEvent
  | dial (hub : Option Nat)
  | incoming (hub : Option Nat)
  | established (p : Nat)
  | frame (p : Nat) (cmd : List Char)
  | error (p : Nat) (msg : List Char)
  | sent (p : Nat) (n : Nat)
  | disconnect (p : Nat)
  | free (p : Nat)
  | fire (src : Nat)
  | hubSet (hid : Nat) (h : CcHub)
  | hubClose (hid : Nat)

/-- One event, with what the session it concerns sends; `none` where the C code's
behaviour is undefined. A transport event on a session whose transport is not in a phase
that produces it changes nothing. -/
def ccStep (E : CcEnv) (s : Cc) : CcEvent → Option (Cc × List CcOut)
  | .dial hub => some ((nmdcCcCreate s hub .connecting).1, [])
  | .incoming hub => some ((nmdcCcCreate s hub .connected).1, [])
  | .established p =>
      match s.heap p with
      | some c =>
          if c.net.phase = .connecting then
            handleConnect E (s.setSession p { c with net := { c.net with phase := .connected } }) p
          else some (s, [])
      | none => some (s, [])
  | .frame p cmd =>
      match s.heap p with
      | some c => if c.net.phase = .connected then handleCmd E s p cmd else some (s, [])
      | none => some (s, [])
  | .error p msg =>
      match s.heap p with
      | some c =>
          if c.net.phase = .closed then some (s, []) else (handleError s p msg).map (·, [])
      | none => some (s, [])
  | .sent p n =>
      match s.heap p with
      | some c =>
          if c.net.phase = .connected then
            some (s.setSession p { c with net := { c.net with fileLeft := c.net.fileLeft - n } },
              [])
          else some (s, [])
      | none => some (s, [])
  | .disconnect p => (s.heap p).map fun c => (nmdcCcDisconnect s p c, [])
  | .free p => (nmdcCcFree s p).map (·, [])
  | .fire src =>
      match s.timers.find? (·.1 = src) with
      | some (_, p) => (handleTimeout s src p).map (·, [])
      | none => some (s, [])
  | .hubSet hid h => some ({ s with hubs := Function.update s.hubs hid (some h) }, [])
  | .hubClose hid =>
      (nmdcCcRemoveHub s hid).map fun s => ({ s with hubs := Function.update s.hubs hid none }, [])

/-- The registry after a sequence of events, from the first. -/
def ccRun (E : CcEnv) (s : Cc) : List CcEvent → Option Cc
  | [] => some s
  | e :: es => (ccStep E s e).bind fun r => ccRun E r.1 es

/-- The registries some sequence of events reaches from `Cc.init`. -/
inductive CcReachable (E : CcEnv) : Cc → Prop
  | init : CcReachable E Cc.init
  | step {s s' : Cc} {e : CcEvent} {out : List CcOut} :
      CcReachable E s → ccStep E s e = some (s', out) → CcReachable E s'

end Ncdc
