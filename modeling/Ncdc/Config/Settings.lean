import Ncdc.FileList.Browse

/-!
The settings commands of ncdc, `/oset`, `/ounset`, their completion and `/help oset`, over
the table `settings[]`. What they read of the rest of ncdc is a parameter: an `OsetTable` for
what is fixed, an `OsetCtx` for one command's context. `none` marks undefined behaviour.
-/

namespace Ncdc

/-! ### The variable store -/

/-- Modelled from the spec: the variable store `db_vars`, the value of a key for a hub, hub 0
standing for the global value. -/
structure Vars where
  get : Nat → List Char → Option (List Char)

namespace Vars

/-- `db_vars_set(hub, key, val)`. -/
def set (S : Vars) (hub : Nat) (key val : List Char) : Vars :=
  ⟨fun h k => if h = hub ∧ k = key then some val else S.get h k⟩

/-- `db_vars_rm(hub, key)`. -/
def rm (S : Vars) (hub : Nat) (key : List Char) : Vars :=
  ⟨fun h k => if h = hub ∧ k = key then none else S.get h k⟩

@[simp] theorem get_set (S : Vars) (hub : Nat) (key val : List Char) (h : Nat) (k : List Char) :
    (S.set hub key val).get h k = if h = hub ∧ k = key then some val else S.get h k := rfl

@[simp] theorem get_rm (S : Vars) (hub : Nat) (key : List Char) (h : Nat) (k : List Char) :
    (S.rm hub key).get h k = if h = hub ∧ k = key then none else S.get h k := rfl

@[ext] theorem ext {S T : Vars} (h : ∀ hub k, S.get hub k = T.get hub k) : S = T := by
  cases S; cases T; congr; funext hub k; exact h hub k

theorem rm_of_get_none {S : Vars} {hub : Nat} {key : List Char} (h : S.get hub key = none) :
    S.rm hub key = S := by
  ext h' k; by_cases hk : h' = hub ∧ k = key <;> simp_all

theorem rm_set_of_get_none {S : Vars} {hub : Nat} {key val : List Char}
    (h : S.get hub key = none) : (S.set hub key val).rm hub key = S := by
  ext h' k; by_cases hk : h' = hub ∧ k = key <;> simp_all

end Vars

/-- The `hubname(g)` macro: `global` for hub 0, else the hub's `hubname` variable, which
`printf` shows as `(null)` when it is not set. -/
def hubname (S : Vars) (g : Nat) : List Char :=
  if g = 0 then "global".toList else (S.get g "hubname".toList).getD "(null)".toList

/-- `g_strstrip`: drop the leading and the trailing ASCII white space. -/
def gStrstrip (s : List Char) : List Char :=
  ((s.dropWhile isSpace).reverse.dropWhile isSpace).reverse

/-- `g_ascii_strncasecmp(a, b, n)`: `strcmp` of at most the first `n` characters of each,
ASCII letters compared in lower case. -/
def gAsciiStrncasecmp (a b : List Char) (n : Nat) : Ordering :=
  strcmp ((a.take n).map Char.toLower) ((b.take n).map Char.toLower)

/-! ### What the commands read -/

/-- An entry of `doc_sets`: the documented name, whether the setting may be set per hub, its
type and its description. -/
structure DocSet where
  name : List Char
  hub : Bool
  type : List Char
  desc : List Char

/-- What the settings commands read that stays the same between commands: the colour names,
`doc_sets`, `str_convert_check`, `ui_color_str_parse`, `conf_tlsp_list` and `ui_attr_names`. -/
structure OsetTable where
  colors : List (List Char)
  docs : List DocSet
  strConvertCheck : List Char → Except (Option (List Char)) Unit
  colorStrParse : List Char → Option (List Char)
  tlspList : Fin 3 → List Char
  attrNames : List (List Char)

/-- The context of one command: the current tab's hub, `db_vars_hubid`, the `conf_*` readers of the
store, the colours' shown strings, the certificate and TLS support, the size of `dl_queue`, `db_dir`
and the file system. -/
structure OsetCtx where
  tabHub : Option Nat
  hubid : List Char → Nat
  confEncoding : Vars → Nat → List Char
  confTlsPolicy : Vars → Nat → Fin 3
  confDownloadDir : Vars → List Char
  confIncomingDir : Vars → List Char
  colorStr : Vars → List Char → Option (List Char)
  dbCertificate : Bool
  haveTlsSupport : Bool
  dlQueueSize : Nat
  dbDir : List Char
  fileTest : List Char → Option Bool
  makeDirectory : List Char → Option (List Char)
  stat : List Char → Except (List Char) Nat
  pathSuggest : List Char → List (List Char)

/-- What a command does besides writing the store: a line on the main tab (`ui_m`, `ui_mf`),
`ui_colors_update()` and `hub_global_nfochange()`. -/
inductive OsetOut
  | msg (text : List Char)
  | colorsUpdate
  | nfoChange
  deriving DecidableEq, Repr

/-- Commands run one after the other: each in turn on the store the one before left, and
what they print in order. -/
def Vars.thread {α : Type} (f : α → Vars → Option (Vars × List OsetOut))
    (acc : Vars × List OsetOut) (xs : List α) : Option (Vars × List OsetOut) :=
  xs.foldlM (fun r x => do
    let (S', o) ← f x r.1
    pure (S', r.2 ++ o)) acc

/-! ### The table of settings -/

/-- The getter, setter and suggester a row of `settings[]` points to, one constructor per triple the
table uses. -/
inductive SettingFns
  | color
  | downloadDir
  | encoding
  | incomingDir
  | tlsPolicy
  deriving DecidableEq, Repr

/-- A row of `settings[]`. Its `doc` field is never set, so `getdoc` always searches
`doc_sets`. -/
structure Setting where
  name : List Char
  fns : SettingFns
  deriving DecidableEq, Repr

/-- `settings[]`: a `color_` row per colour, then the four others. -/
def settings (colors : List (List Char)) : List Setting :=
  colors.map (fun c => ⟨"color_".toList ++ c, .color⟩) ++
    [⟨"download_dir".toList, .downloadDir⟩, ⟨"encoding".toList, .encoding⟩,
      ⟨"incoming_dir".toList, .incomingDir⟩, ⟨"tls_policy".toList, .tlsPolicy⟩]

/-- `getsetting(name)`: the first row with that name. -/
def getsetting (colors : List (List Char)) (name : List Char) : Option Setting :=
  (settings colors).find? fun s => decide (strcmp s.name name = .eq)

/-- `getdoc(s)`: the documentation of `s`, under `color_*` for a colour. -/
def getdoc (docs : List DocSet) (s : Setting) : Option DocSet :=
  let n := if strncmp s.name "color_".toList 6 = .eq then "color_*".toList else s.name
  docs.find? fun d => decide (strcmp d.name n = .eq)

/-- The first step of `parsesetting`: the group before the first `.`, if any, and the key. -/
def splitGroup (name : List Char) : Option (List Char) × List Char :=
  match index '.' name with
  | some (g, k) => (some g, k)
  | none => (none, name)

/-- What `parsesetting` hands back on success: the hub, the key, the row and `checkalt`. -/
structure Parsed where
  hub : Nat
  key : List Char
  setting : Setting
  checkalt : Bool

/-- `parsesetting(name, ...)`: `.ok` for `TRUE`, `.error` with the message for `FALSE`. -/
def parsesetting (T : OsetTable) (C : OsetCtx) (name : List Char) :
    Option (Except (List Char) Parsed) :=
  let (group, key) := splitGroup name
  match getsetting T.colors key with
  | none => some (.error ("No configuration variable with the name \x27".toList ++ key ++
      "\x27.".toList))
  | some s =>
    match group with
    | some g =>
      if strcmp g "global".toList = .eq then some (.ok ⟨0, key, s, false⟩)
      else do
        let hub := C.hubid g
        let d ← getdoc T.docs s
        if !d.hub || hub = 0 then some (.error "Wrong configuration group.".toList)
        else some (.ok ⟨hub, key, s, false⟩)
    | none => do
      let d ← getdoc T.docs s
      match C.tabHub with
      | some t =>
        if d.hub then some (.ok ⟨t, key, s, true⟩) else some (.ok ⟨0, key, s, false⟩)
      | none => some (.ok ⟨0, key, s, false⟩)

/-- The hub a get or an unset reads: `if(checkalt && !conf_exists(hub, key)) hub = 0;`. -/
def Parsed.altHub (p : Parsed) (S : Vars) : Nat :=
  if p.checkalt && !(S.get p.hub p.key).isSome then 0 else p.hub

/-! ### The getters -/

/-- `get_encoding(hub, key)`. -/
def getEncoding (C : OsetCtx) (S : Vars) (hub : Nat) (key : List Char) : List OsetOut :=
  [.msg (hubname S hub ++ '.' :: key ++ " = ".toList ++ C.confEncoding S hub)]

/-- `get_download_dir` and `get_incoming_dir`: the global value the reader gives. -/
def getDir (dir : List Char) (key : List Char) : List OsetOut :=
  [.msg ("global.".toList ++ key ++ " = ".toList ++ dir)]

/-- `get_download_dir(hub, key)`. -/
def getDownloadDir (C : OsetCtx) (S : Vars) (key : List Char) : List OsetOut :=
  getDir (C.confDownloadDir S) key

/-- `get_incoming_dir(hub, key)`. -/
def getIncomingDir (C : OsetCtx) (S : Vars) (key : List Char) : List OsetOut :=
  getDir (C.confIncomingDir S) key

/-- `get_color(hub, key)`: nothing when the key is no `color_` name or names no colour
(`g_return_if_fail`). -/
def getColor (C : OsetCtx) (S : Vars) (key : List Char) : List OsetOut :=
  if strncmp key "color_".toList 6 = .eq then
    match C.colorStr S (key.drop 6) with
    | some c => [.msg ("global.".toList ++ key ++ " = ".toList ++ c)]
    | none => []
  else []

/-- `get_tls_policy(hub, key)`. -/
def getTlsPolicy (T : OsetTable) (C : OsetCtx) (S : Vars) (hub : Nat) (key : List Char) :
    List OsetOut :=
  [.msg (hubname S hub ++ '.' :: key ++ " = ".toList ++ T.tlspList (C.confTlsPolicy S hub) ++
    if C.dbCertificate then [] else " (not supported)".toList)]

/-- `s->get(hub, key)`. -/
def settingGet (T : OsetTable) (C : OsetCtx) (S : Vars) (s : Setting) (hub : Nat)
    (key : List Char) : List OsetOut :=
  match s.fns with
  | .color => getColor C S key
  | .downloadDir => getDownloadDir C S key
  | .encoding => getEncoding C S hub key
  | .incomingDir => getIncomingDir C S key
  | .tlsPolicy => getTlsPolicy T C S hub key

/-! ### The setters -/

/-- `set_encoding(hub, key, val)`; `val = none` resets. -/
def setEncoding (T : OsetTable) (C : OsetCtx) (S : Vars) (hub : Nat) (key : List Char) :
    Option (List Char) → Vars × List OsetOut
  | none =>
    let S' := S.rm hub key
    (S', [.msg (hubname S' hub ++ '.' :: key ++ " reset.".toList)])
  | some v =>
    match T.strConvertCheck v with
    | .error (some e) => (S, [.msg ("ERROR: Can\x27t use that encoding: ".toList ++ e)])
    | .error none => (S, [.msg "ERROR: Invalid encoding.".toList])
    | .ok () =>
      let S' := S.set hub key v
      (S', getEncoding C S' hub key)

/-- `set_color(hub, key, val)`: always the global value. -/
def setColor (T : OsetTable) (C : OsetCtx) (S : Vars) (key : List Char) :
    Option (List Char) → Vars × List OsetOut
  | none => (S.rm 0 key, [.msg ("global.".toList ++ key ++ " reset.".toList), .colorsUpdate])
  | some v =>
    match T.colorStrParse v with
    | some e => (S, [.msg e])
    | none =>
      let S' := S.set 0 key v
      (S', .colorsUpdate :: getColor C S' key)

/-- The policy a value of `tls_policy` names: its number or its name in `conf_tlsp_list`. -/
def tlsPolicyIndex (T : OsetTable) (val : List Char) : Option (Fin 3) :=
  if strcmp val "0".toList = .eq ∨ strcmp val (T.tlspList 0) = .eq then some 0
  else if strcmp val "1".toList = .eq ∨ strcmp val (T.tlspList 1) = .eq then some 1
  else if strcmp val "2".toList = .eq ∨ strcmp val (T.tlspList 2) = .eq then some 2
  else none

/-- `set_tls_policy(hub, key, val)`. `conf_set_int` stores the policy's number in decimal; a
change of the policy the hub sees calls `hub_global_nfochange()`. -/
def setTlsPolicy (T : OsetTable) (C : OsetCtx) (S : Vars) (hub : Nat) (key : List Char)
    (val : Option (List Char)) : Vars × List OsetOut :=
  let r : Vars × List OsetOut := match val with
    | none =>
      let S' := S.rm hub key
      (S', [.msg (hubname S' hub ++ '.' :: key ++ " reset.".toList)])
    | some v =>
      if !C.dbCertificate then
        (S, [.msg ("This option can\x27t be modified: ".toList ++
          (if !C.haveTlsSupport then "no TLS support available".toList
            else "no client certificate available".toList) ++ ".".toList)])
      else match tlsPolicyIndex T v with
        | none => (S, [.msg "Invalid TLS policy.".toList])
        | some p =>
          let S' := S.set hub key (decimal p)
          (S', getTlsPolicy T C S' hub key)
  (r.1, if C.confTlsPolicy S hub ≠ C.confTlsPolicy r.1 hub then r.2 ++ [.nfoChange] else r.2)

/-- The file-system test of `set_dl_inc_dir`: whether the new directory `nval` exists as a
directory or could be made, with the message when not. -/
def dlIncUsable (C : OsetCtx) (nval : List Char) : Bool × List OsetOut :=
  match C.fileTest nval with
  | some true => (true, [])
  | some false => (false, [.msg (nval ++ ": Not a directory.".toList)])
  | none =>
    match C.makeDirectory nval with
    | some e => (false, [.msg ("Error creating \x60".toList ++ nval ++ "\x27: ".toList ++ e)])
    | none => (true, [])

/-- The test of `set_dl_inc_dir` whether the new directory lies on the file system of the
other one: whether to warn, or `none` where the source hands a `struct stat` to `%s`. -/
def dlIncSameFs (C : OsetCtx) (S : Vars) (dl : Bool) (nval : List Char) :
    Option (Bool × List OsetOut) :=
  let bd := if dl then C.confIncomingDir S else C.confDownloadDir S
  match C.stat bd with
  | .error e => some (true, [.msg ("Error stat\x27ing ".toList ++ bd ++ ": ".toList ++ e ++
      ".".toList)])
  | .ok b =>
    match C.stat nval with
    | .error _ => none
    | .ok a => some (a != b, [])

/-- The text `set_dl_inc_dir` warns with when the two directories lie on different file
systems, or one of them could not be examined. -/
def dlIncWarning : List Char :=
  ("WARNING: The download directory is not on the same filesystem as the incoming" ++
    " directory. This may cause the program to hang when downloading large files.").toList

/-- The end of `set_dl_inc_dir` once the directory is usable: save the global value and show
it, or reset it. -/
def dlIncSave (C : OsetCtx) (S : Vars) (dl : Bool) (key : List Char) :
    Option (List Char) → Vars × List OsetOut
  | none => (S.rm 0 key, [.msg ("global.".toList ++ key ++ " reset.".toList)])
  | some v =>
    let S' := S.set 0 key v
    (S', if dl then getDownloadDir C S' key else getIncomingDir C S' key)

/-- `set_dl_inc_dir(hub, key, val)`, always on the global value: a reset checks the default
`db_dir/dl` or `db_dir/inc` as a set checks the new directory. Once the directory is usable, the
value is saved whatever the file-system test finds. -/
def setDlIncDir (C : OsetCtx) (S : Vars) (key : List Char) (val : Option (List Char)) :
    Option (Vars × List OsetOut) :=
  let dl := decide (strcmp key "download_dir".toList = .eq)
  if !dl && 0 < C.dlQueueSize then
    some (S, [.msg ("Can\x27t change the incoming directory unless the download queue is" ++
      " empty.").toList])
  else
    let nval := val.getD (gBuildFilename [C.dbDir, if dl then "dl".toList else "inc".toList])
    match dlIncUsable C nval with
    | (false, out) => some (S, out)
    | (true, out) =>
      (dlIncSameFs C S dl nval).map fun w =>
        let r := dlIncSave C S dl key val
        (r.1, out ++ w.2 ++ r.2 ++ if w.1 then [.msg dlIncWarning] else [])

/-- `s->set(hub, key, val)`. -/
def settingSet (T : OsetTable) (C : OsetCtx) (S : Vars) (s : Setting) (hub : Nat)
    (key : List Char) (val : Option (List Char)) : Option (Vars × List OsetOut) :=
  match s.fns with
  | .color => some (setColor T C S key val)
  | .downloadDir | .incomingDir => setDlIncDir C S key val
  | .encoding => some (setEncoding T C S hub key val)
  | .tlsPolicy => some (setTlsPolicy T C S hub key val)

/-! ### The commands -/

/-- The first step of `c_oset`: the name before the first space, and the stripped rest as the
value. -/
def splitValue (args : List Char) : List Char × Option (List Char) :=
  match index ' ' args with
  | some (n, v) => (n, some (gStrstrip v))
  | none => (args, none)

/-- `c_oset(args)` for a non-empty `args`: the name before the first space, the stripped rest
as the value; no value, or an empty one, shows the setting. -/
def cOsetArg (T : OsetTable) (C : OsetCtx) (S : Vars) (args : List Char) :
    Option (Vars × List OsetOut) :=
  let (name, val) := splitValue args
  match parsesetting T C name with
  | none => none
  | some (.error m) => some (S, [.msg m])
  | some (.ok p) =>
    match val with
    | some (c :: cs) => settingSet T C S p.setting p.hub p.key (some (c :: cs))
    | _ => some (S, settingGet T C S p.setting (p.altHub S) p.key)

/-- `c_oset(args)`: with no argument, every setting in turn between two empty lines. -/
def cOset (T : OsetTable) (C : OsetCtx) (S : Vars) (args : List Char) :
    Option (Vars × List OsetOut) :=
  if args = [] then do
    let r ← Vars.thread (fun s S => cOsetArg T C S s.name) (S, [.msg []]) (settings T.colors)
    pure (r.1, r.2 ++ [.msg []])
  else cOsetArg T C S args

/-- `c_ounset(args)`: the whole argument is the name. -/
def cOunset (T : OsetTable) (C : OsetCtx) (S : Vars) (args : List Char) :
    Option (Vars × List OsetOut) :=
  if args = [] then cOset T C S []
  else
    match parsesetting T C args with
    | none => none
    | some (.error m) => some (S, [.msg m])
    | some (.ok p) => settingSet T C S p.setting (p.altHub S) p.key none

/-- `c_help_oset(args)`. -/
def cHelpOset (T : OsetTable) (args : List Char) : List OsetOut :=
  match getsetting T.colors args with
  | none => [.msg ("\nUnknown setting \x60".toList ++ args ++ "\x27.".toList)]
  | some s =>
    match getdoc T.docs s with
    | none => [.msg ("\nNo documentation available for ".toList ++ args ++ ".".toList)]
    | some d => [.msg ("\nSetting: ".toList ++ (if d.hub then "#hub".toList else "global".toList) ++
        '.' :: s.name ++ ' ' :: d.type ++ "\n\n".toList ++ d.desc ++ "\n".toList)]

/-! ### Completion -/

/-- The encodings `set_encoding_sug` offers. -/
def encodings : List (List Char) :=
  ["CP1250", "CP1251", "CP1252", "ISO-2022-JP", "ISO-8859-2", "ISO-8859-7", "ISO-8859-8",
    "ISO-8859-9", "KOI8-R", "LATIN1", "SJIS", "UTF-8", "WINDOWS-1250", "WINDOWS-1251",
    "WINDOWS-1252"].map String.toList

/-- The suggestions of a static list: the first 20 entries that extend `val`, compared
without case, and are longer than it. -/
def strictCaseSug (names : List (List Char)) (val : List Char) : List (List Char) :=
  (names.filter fun e =>
    decide (gAsciiStrncasecmp val e val.length = .eq) && e.length != val.length).take 20

/-- `set_encoding_sug(hub, key, val, sug)`. -/
def setEncodingSug (val : List Char) : List (List Char) := strictCaseSug encodings val

/-- `set_tls_policy_sug(hub, key, val, sug)`: the names of the three policies. -/
def setTlsPolicySug (T : OsetTable) (val : List Char) : List (List Char) :=
  strictCaseSug [T.tlspList 0, T.tlspList 1, T.tlspList 2] val

/-- `set_color_sug(hub, key, val, sug)`: the attribute names that extend the stripped text
after the last `,`, each after the text before it and a `,`. -/
def setColorSug (T : OsetTable) (val : List Char) : List (List Char) :=
  let (pre, attr) : Option (List Char) × List Char := match rindex ',' val with
    | some (p, a) => (some p, gStrstrip a)
    | none => (none, gStrstrip val)
  let sug := (T.attrNames.filter fun a => decide (strncmp attr a attr.length = .eq)).take 20
  match pre with
  | some p => if sug ≠ [] then sug.map (p ++ ',' :: ·) else sug
  | none => sug

/-- `s->suggest(hub, key, val, sug)`. -/
def settingSuggest (T : OsetTable) (C : OsetCtx) (s : Setting) (val : List Char) :
    List (List Char) :=
  match s.fns with
  | .color => setColorSug T val
  | .downloadDir | .incomingDir => C.pathSuggest val
  | .encoding => setEncodingSug val
  | .tlsPolicy => setTlsPolicySug T val

/-- `c_oset_sugkey(args, sug)`: the first 20 setting names that extend `args` and are
longer. -/
def cOsetSugkey (colors : List (List Char)) (args : List Char) : List (List Char) :=
  (((settings colors).filter fun s =>
    decide (strncmp s.name args args.length = .eq) && s.name.length != args.length).take 20).map
      Setting.name

/-- `c_oset_sug(args, sug)`: the keys while no space is typed, then the setting's suggestions for
the text after the first space, each after the text before it and a space. The suggesters read
neither hub nor key, so the `conf_exists` test before the call is left out. -/
def cOsetSug (T : OsetTable) (C : OsetCtx) (args : List Char) :
    Option (List OsetOut × List (List Char)) :=
  match index ' ' args with
  | none => some ([], cOsetSugkey T.colors args)
  | some (pre, rest) =>
    match parsesetting T C pre with
    | none => none
    | some (.error m) => some ([.msg m], [])
    | some (.ok p) => some ([], (settingSuggest T C p.setting rest).map (pre ++ ' ' :: ·))

/-- A settings command as the command line hands it over. -/
inductive OsetCmd
  | oset (args : List Char)
  | ounset (args : List Char)

/-- One command in its context. -/
def osetStep (T : OsetTable) (C : OsetCtx) (S : Vars) : OsetCmd → Option (Vars × List OsetOut)
  | .oset args => cOset T C S args
  | .ounset args => cOunset T C S args

/-- A run of commands, each in its own context: the store at the end and all that was
printed, or `none` if a command's behaviour is undefined. -/
def osetRun (T : OsetTable) (S : Vars) (steps : List (OsetCtx × OsetCmd)) :
    Option (Vars × List OsetOut) :=
  Vars.thread (fun c S => osetStep T c.1 S c.2) (S, []) steps

end Ncdc
