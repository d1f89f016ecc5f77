import Ncdc.Regex
import Ncdc.Hub.Session

/-!
`nmdc_handle`, the NMDC side of a hub session, and `handle_cmd`, which dispatches by dialect.
Every command regex is tried on the frame in turn, so each test and its action is one
`Branch`, run in the source's order.
-/

namespace Ncdc

/-! ### The command regexes of `nmdc_handle` -/

/-- `\$Hello ([^ $]+)` -/
def matchHello (s : List Char) : Option (List Char) := do
  let s ← literal "$Hello ".toList s
  let (nick, _) ← word s
  pure nick

/-- `\$Quit ([^ $]+)` -/
def matchQuit (s : List Char) : Option (List Char) := do
  let s ← literal "$Quit ".toList s
  let (nick, _) ← word s
  pure nick

/-- `\$NickList (.+)` -/
def matchNickList (s : List Char) : Option (List Char) :=
  literal "$NickList ".toList s >>= rest

/-- `\$OpList (.+)` -/
def matchOpList (s : List Char) : Option (List Char) :=
  literal "$OpList ".toList s >>= rest

/-- `\$MyINFO \$ALL ([^ $]+) (.+)` -/
def matchMyinfo (s : List Char) : Option (List Char × List Char) := do
  let s ← literal "$MyINFO $ALL ".toList s
  let (nick, s) ← word s
  let s ← literal [' '] s
  let info ← rest s
  pure (nick, info)

/-- `\$HubName (.+)` -/
def matchHubName (s : List Char) : Option (List Char) :=
  literal "$HubName ".toList s >>= rest

/-- `\$ForceMove (.+)` -/
def matchForceMove (s : List Char) : Option (List Char) :=
  literal "$ForceMove ".toList s >>= rest

/-- `\$ConnectToMe ([^ $]+) ([0-9]{1,3}(?:\.[0-9]{1,3}){3}:[0-9]+)` -/
def matchConnectToMe (s : List Char) : Option (List Char × List Char) := do
  let s ← literal "$ConnectToMe ".toList s
  let (me, s) ← word s
  let s ← literal [' '] s
  let (addr, _) ← ipPort s
  pure (me, addr)

/-- `\$RevConnectToMe ([^ $]+) ([^ $]+)` -/
def matchRevConnectToMe (s : List Char) : Option (List Char × List Char) := do
  let s ← literal "$RevConnectToMe ".toList s
  let (other, s) ← word s
  let s ← literal [' '] s
  let (me, _) ← word s
  pure (other, me)

/-- The captures of the `$Search` regex. -/
structure SearchArgs where
  source : List Char
  sizeRestrict : Char
  isMax : Char
  size : List Char
  type : Char
  query : List Char

/-- `\$Search (Hub:(?:[^ $]+)|(?:ip:port)) ([TF])\?([TF])\?([0-9]+)\?([1-9])\?(.+)` -/
def matchSearch (s : List Char) : Option SearchArgs := do
  let s ← literal "$Search ".toList s
  let (src, s) ← match literal "Hub:".toList s with
    | some t => (word t).map fun p => ("Hub:".toList ++ p.1, p.2)
    | none => ipPort s
  let s ← literal [' '] s
  let (sr, s) ← oneOf (fun c => c = 'T' || c = 'F') s
  let s ← literal ['?'] s
  let (im, s) ← oneOf (fun c => c = 'T' || c = 'F') s
  let s ← literal ['?'] s
  let (size, s) ← digitsRun s
  let s ← literal ['?'] s
  let (ty, s) ← oneOf (fun c => '1' ≤ c && c ≤ '9') s
  let s ← literal ['?'] s
  let q ← rest s
  pure ⟨src, sr, im, size, ty, q⟩

theorem matchSearch_eq_none {s : List Char} (h : literal "$Search ".toList s = none) :
    matchSearch s = none := by
  unfold matchSearch; rw [h]; rfl

/-! ### The branches of `nmdc_handle` -/

/-- One test of `nmdc_handle` with its action. -/
def Branch := Hub → Option (Hub × List HubOut)

/-- `strcmp(s, hub->nick_hub) == 0`; comparing with an unset nick is undefined. -/
def ownNick (h : Hub) (s : List Char) : Option Bool := h.nickHub.map (s = ·)

section Branches

variable (H : Helpers) (conf : Conf) (cmd : List Char)

/-- `$Lock`: answer with the key and the nick to validate. A challenge without the
`EXTENDEDPROTOCOL` marker only loses the `$Supports` line. -/
def nmdcLock : Branch := fun h =>
  match matchLock cmd with
  | none => some (h, [])
  | some lock =>
      let nickHub := H.fromUtf8 conf.nick
      some ({ h with nick := some conf.nick, nickHub := some nickHub },
        (if "EXTENDEDPROTOCOL".toList.isPrefixOf lock then
          [.send "$Supports NoGetINFO NoHello".toList] else []) ++
        [.send ("$Key ".toList ++ H.lock2key lock), .send ("$ValidateNick ".toList ++ nickHub)])

/-- `$Supports`: remember `NoGetINFO`. -/
def nmdcSupports : Branch := fun h =>
  match matchSupports cmd with
  | none => some (h, [])
  | some list =>
      some (if strstr list "NoGetINFO".toList then { h with supportsNogetinfo := true } else h, [])

/-- `$Hello`: our own nick validates the session; another adds a user. -/
def nmdcHello : Branch := fun h =>
  match matchHello cmd with
  | none => some (h, [])
  | some nick => do
      let own ← ownNick h nick
      if own then
        if h.nickValid then some (h, [])
        else
          let r := hubSendNfo H conf h
          some ({ r.1 with nickValid := true },
            .send "$Version 1,0091".toList :: r.2 ++ [.send "$GetNickList".toList])
      else
        let (h, p) := userAdd H h nick
        let u ← h.heap p
        some (h, if !u.hasinfo && !h.supportsNogetinfo then
          [.send ("$GetINFO ".toList ++ nick)] else [])

/-- `$Quit`: remove the user and take its share out of the totals. -/
def nmdcQuit : Branch := fun h =>
  match matchQuit cmd with
  | none => some (h, [])
  | some nick =>
      match h.users.lookup nick with
      | none => some (h, [])
      | some p => do
          let u ← h.heap p
          let h := if u.hasinfo then
              { h with sharecount := h.sharecount - 1, sharesize := sub64 h.sharesize u.sharesize }
            else h
          some (h.usersRemove nick, [])

/-- The names of a `$NickList` or `$OpList`, up to the first empty piece. -/
def nickNames (str : List Char) : List (List Char) :=
  (gStrsplit str).takeWhile (· ≠ [])

/-- One name of a `$NickList`. -/
def nickListName (h : Hub × List HubOut) (n : List Char) : Option (Hub × List HubOut) := do
  let (hub, p) := userAdd H h.1 n
  let u ← hub.heap p
  some (hub, if !u.hasinfo && !hub.supportsNogetinfo then
    h.2 ++ [.send ("$GetINFO ".toList ++ n ++ ' ' :: hub.nickHub.getD "(null)".toList)]
    else h.2)

/-- `$NickList`: add every listed user. -/
def nmdcNickList : Branch := fun h =>
  match matchNickList cmd with
  | none => some (h, [])
  | some str => do
      let r ← (nickNames str).foldlM (nickListName H) (h, [])
      some ({ r.1 with receivedFirst := true }, r.2)

/-- One name of an `$OpList`: the user is marked an operator; flags of users that are not
listed are left as they were. -/
def opListName (h : Hub) (n : List Char) : Option Hub := do
  let (h, p) := userAdd H h n
  let u ← h.heap p
  let h := h.setUser p { u with isop := true }
  let own ← ownNick h n
  some (if own then { h with isop := true } else h)

/-- `$OpList` -/
def nmdcOpList : Branch := fun h =>
  match matchOpList cmd with
  | none => some (h, [])
  | some str => do
      let r ← (nickNames str).foldlM (opListName H) { h with isop := false }
      some ({ r with receivedFirst := true }, [])

/-- `$MyINFO`: update the user, keeping the share totals in step. -/
def nmdcMyinfo : Branch := fun h =>
  match matchMyinfo cmd with
  | none => some (h, [])
  | some (nick, str) => do
      let (h, p) := userAdd H h nick
      let u ← h.heap p
      let h := if u.hasinfo then { h with sharesize := sub64 h.sharesize u.sharesize }
        else { h with sharecount := h.sharecount + 1 }
      let u := userNmdcNfo H u str
      let h := h.setUser p u
      let h := if u.hasinfo then { h with sharesize := add64 h.sharesize u.sharesize }
        else { h with sharecount := h.sharecount - 1 }
      some (if h.receivedFirst && !h.joincomplete && h.sharecount = h.users.length then
        { h with joincomplete := true } else h, [])

/-- `$HubName` -/
def nmdcHubName : Branch := fun h =>
  match matchHubName cmd with
  | none => some (h, [])
  | some n => some ({ h with hubnameHub := some n, hubname := some (H.unescapeAndDecode n) }, [])

/-- `$ForceMove`: disconnect without reconnecting. -/
def nmdcForceMove : Branch := fun h =>
  match matchForceMove cmd with
  | none => some (h, [])
  | some _ => some (hubDisconnect h false)

/-- `$ConnectToMe` addressed to us opens a client connection. -/
def nmdcConnectToMe : Branch := fun h =>
  match matchConnectToMe cmd with
  | none => some (h, [])
  | some (me, addr) => do
      let own ← ownNick h me
      some (h, if own then [.connectCc addr] else [])

/-- `$RevConnectToMe` addressed to us is answered when we listen. -/
def nmdcRevConnectToMe : Branch := fun h =>
  match matchRevConnectToMe cmd with
  | none => some (h, [])
  | some (other, me) => do
      let own ← ownNick h me
      some (h, match own, conf.listen with
        | true, some (ip, port) =>
            [.send ("$ConnectToMe ".toList ++ other ++ ' ' :: ip ++ ':' :: decimal port),
              .expectCc other]
        | _, _ => [])

/-- `$Search` runs `nmdc_search` with the decoded size restriction. -/
def nmdcSearch : Branch := fun h =>
  match matchSearch cmd with
  | none => some (h, [])
  | some a =>
      some (h, [.search a.source (if a.sizeRestrict = 'F' then 0 else if a.isMax = 'T' then -1
        else 1) (gAsciiStrtoull a.size) (a.type.toNat - '0'.toNat) a.query])

/-- `$GetPass`: `hub_password(hub, NULL)`, which does nothing once validated. -/
def nmdcGetPass : Branch := fun h =>
  if "$GetPass".toList.isPrefixOf cmd ∧ !h.nickValid then
    match conf.password with
    | some pw => some ({ h with isreg := true }, [.send ("$MyPass ".toList ++ pw)])
    | none => some (h, [])
  else some (h, [])

/-- A `strncmp` prefix that ends the connection. -/
def nmdcFatalPrefix (p : List Char) (recon : Bool) : Branch := fun h =>
  if p.isPrefixOf cmd then some (hubDisconnect h recon) else some (h, [])

/-- The branches of `nmdc_handle` in the source's order. `$To` and chat only reach the UI. -/
def nmdcBranches : List Branch :=
  [nmdcLock H conf cmd, nmdcSupports cmd, nmdcHello H conf cmd, nmdcQuit cmd,
    nmdcNickList H cmd, nmdcOpList H cmd, nmdcMyinfo H cmd, nmdcHubName H cmd,
    nmdcForceMove cmd, nmdcConnectToMe cmd, nmdcRevConnectToMe conf cmd, nmdcSearch cmd,
    nmdcGetPass conf cmd, nmdcFatalPrefix cmd "$BadPass".toList false,
    nmdcFatalPrefix cmd "$ValidateDenide".toList true,
    nmdcFatalPrefix cmd "$HubIsFull".toList true]

end Branches

/-- Run one branch after the ones before it, keeping the effects in order. -/
def runBranch (r : Hub × List HubOut) (b : Branch) : Option (Hub × List HubOut) :=
  (b r.1).map fun r' => (r'.1, r.2 ++ r'.2)

/-- `nmdc_handle(hub, cmd)` -/
def nmdcHandle (H : Helpers) (conf : Conf) (h : Hub) (cmd : List Char) :
    Option (Hub × List HubOut) :=
  (nmdcBranches H conf cmd).foldlM runBranch (h, [])

/-- `handle_cmd`: the frame goes to the handler of the hub's dialect. -/
def handleCmd (H : Helpers) (conf : Conf) (h : Hub) (cmd : List Char) :
    Option (Hub × List HubOut) :=
  if h.adc then adcHandle H conf h cmd else nmdcHandle H conf h cmd

end Ncdc
