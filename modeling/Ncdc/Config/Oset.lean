import Ncdc.Config.Settings

/-!
What the settings commands do to the variable store. `parsesetting` hands on a row of the
table under its own name, and each setter leaves the store alone, removes the setting's entry
or writes a value its check accepts (`SetEffect`); every run of `/oset` and `/ounset` keeps
to this.
-/

namespace Ncdc

/-! ### The table -/

theorem mem_settings {colors : List (List Char)} {s : Setting} (hs : s ∈ settings colors) :
    (s.fns = .color ∧ ∃ c, s.name = "color_".toList ++ c) ∨
      s = ⟨"download_dir".toList, .downloadDir⟩ ∨ s = ⟨"encoding".toList, .encoding⟩ ∨
      s = ⟨"incoming_dir".toList, .incomingDir⟩ ∨
      s = ⟨"tls_policy".toList, .tlsPolicy⟩ := by
  simp only [settings, List.mem_append, List.mem_map, List.mem_cons, List.mem_singleton,
    List.not_mem_nil, or_false] at hs
  rcases hs with ⟨c, -, rfl⟩ | hs
  · exact .inl ⟨rfl, c, rfl⟩
  · exact .inr hs

theorem Setting.name_ne_nil {colors : List (List Char)} {s : Setting}
    (hs : s ∈ settings colors) : s.name ≠ [] := by
  rcases mem_settings hs with ⟨-, c, hc⟩ | rfl | rfl | rfl | rfl <;> simp_all

theorem settings_name_inj {colors : List (List Char)} {s s' : Setting}
    (hs : s ∈ settings colors) (hs' : s' ∈ settings colors) (h : s.name = s'.name) :
    s = s' := by
  rcases mem_settings hs with ⟨hf, c, hc⟩ | rfl | rfl | rfl | rfl <;>
  rcases mem_settings hs' with ⟨hf', c', hc'⟩ | rfl | rfl | rfl | rfl <;>
  simp_all
  cases s; cases s'; simp_all

theorem getsetting_eq_some_iff {colors : List (List Char)} {name : List Char} {s : Setting} :
    getsetting colors name = some s ↔ s ∈ settings colors ∧ s.name = name := by
  constructor
  · intro h
    have hn := List.find?_some h
    simp only [decide_eq_true_eq, strcmp_eq_iff] at hn
    exact ⟨List.mem_of_find?_eq_some h, hn⟩
  · rintro ⟨hs, rfl⟩
    obtain ⟨s', hs'⟩ := Option.isSome_iff_exists.1
      (List.find?_isSome.2 ⟨s, hs, by simp⟩ :
        ((settings colors).find? fun s' => decide (strcmp s'.name s.name = .eq)).isSome)
    have hn := List.find?_some hs'
    simp only [decide_eq_true_eq, strcmp_eq_iff] at hn
    rw [getsetting, hs', settings_name_inj (List.mem_of_find?_eq_some hs') hs hn]

theorem getsetting_of_mem {colors : List (List Char)} {s : Setting} (hs : s ∈ settings colors) :
    getsetting colors s.name = some s :=
  getsetting_eq_some_iff.2 ⟨hs, rfl⟩

/-! ### Parsing a name -/

theorem splitGroup_of_not_mem {name : List Char} (h : '.' ∉ name) :
    splitGroup name = (none, name) := by
  simp [splitGroup, index_eq_none h]

theorem parsesetting_ok {T : OsetTable} {C : OsetCtx} {name : List Char} {p : Parsed}
    (h : parsesetting T C name = some (.ok p)) :
    p.setting ∈ settings T.colors ∧ p.setting.name = p.key ∧
      (p.hub ≠ 0 → ∃ d, getdoc T.docs p.setting = some d ∧ d.hub = true) := by
  rcases hsg : splitGroup name with ⟨g, k⟩
  rcases hs : getsetting T.colors k with _ | s
  · simp [parsesetting, hsg, hs] at h
  obtain ⟨hmem, hname⟩ := getsetting_eq_some_iff.1 hs
  -- every success is the row `s` under `k`, at hub `0` unless its doc is per hub
  suffices ∃ hub c, p = ⟨hub, k, s, c⟩ ∧
      (hub ≠ 0 → ∃ d, getdoc T.docs s = some d ∧ d.hub = true) by
    obtain ⟨hub, c, rfl, hh⟩ := this; exact ⟨hmem, hname, hh⟩
  cases g with
  | some g =>
    simp only [parsesetting, hsg, hs, Option.bind_eq_bind] at h
    split_ifs at h with hglob
    · cases h; exact ⟨0, false, rfl, by simp⟩
    rcases hd : getdoc T.docs s with _ | d <;>
      simp only [hd, Option.none_bind, Option.some_bind] at h
    · cases h
    split_ifs at h with hbad
    · cases h
    cases h; exact ⟨_, false, rfl, fun _ => ⟨d, rfl, by simp_all⟩⟩
  | none =>
    simp only [parsesetting, hsg, hs, Option.bind_eq_bind] at h
    rcases hd : getdoc T.docs s with _ | d <;>
      simp only [hd, Option.none_bind, Option.some_bind] at h
    · cases h
    rcases ht : C.tabHub with _ | t <;> simp only [ht] at h
    · cases h; exact ⟨0, false, rfl, by simp⟩
    split_ifs at h with hh <;> cases h
    · exact ⟨t, true, rfl, fun _ => ⟨d, rfl, hh⟩⟩
    · exact ⟨0, false, rfl, by simp⟩

theorem parsesetting_plain {T : OsetTable} {C : OsetCtx} {s : Setting} {d : DocSet}
    (hs : s ∈ settings T.colors) (hdot : '.' ∉ s.name) (hd : getdoc T.docs s = some d) :
    parsesetting T C s.name = some (.ok ⟨if d.hub then C.tabHub.getD 0 else 0, s.name, s,
      d.hub && C.tabHub.isSome⟩) := by
  simp only [parsesetting, splitGroup_of_not_mem hdot, getsetting_of_mem hs, hd,
    Option.bind_eq_bind, Option.some_bind]
  rcases C.tabHub with _ | t <;> cases d.hub <;> rfl

theorem parsesetting_none_of_getdoc {T : OsetTable} {C : OsetCtx} {s : Setting}
    (hs : s ∈ settings T.colors) (hdot : '.' ∉ s.name) (hd : getdoc T.docs s = none) :
    parsesetting T C s.name = none := by
  simp [parsesetting, splitGroup_of_not_mem hdot, getsetting_of_mem hs, hd]

/-! ### The setters -/

/-- What a setting's own check accepts: a colour string `ui_color_str_parse` takes, an encoding
`str_convert_check` takes, a TLS policy's number, and any directory. -/
def Setting.Accepts (T : OsetTable) (s : Setting) (v : List Char) : Prop :=
  match s.fns with
  | .color => T.colorStrParse v = none
  | .encoding => T.strConvertCheck v = .ok ()
  | .tlsPolicy => ∃ n < 3, v = decimal n
  | .downloadDir | .incomingDir => True

/-- The hub a setter writes under: the one it is given for `encoding` and `tls_policy`, hub 0
for the others. -/
def Setting.storeHub (s : Setting) (hub : Nat) : Nat :=
  match s.fns with
  | .encoding | .tlsPolicy => hub
  | _ => 0

theorem Setting.storeHub_ne_zero {s : Setting} {hub : Nat} (h : s.storeHub hub ≠ 0) :
    (s.fns = .encoding ∨ s.fns = .tlsPolicy) ∧ s.storeHub hub = hub := by
  unfold Setting.storeHub at *
  split at h <;> simp_all

/-- What a setter of `s` may do to the store at hub `h`: nothing, remove the setting's entry,
or write there a value the setting accepts. -/
inductive SetEffect (T : OsetTable) (s : Setting) (S : Vars) (h : Nat) : Vars → Prop
  | keep : SetEffect T s S h S
  | rm : SetEffect T s S h (S.rm h s.name)
  | set (v : List Char) : s.Accepts T v → SetEffect T s S h (S.set h s.name v)

theorem SetEffect.changed {T : OsetTable} {s : Setting} {S S' : Vars} {h : Nat}
    (he : SetEffect T s S h S') {h' : Nat} {k : List Char} (hne : S'.get h' k ≠ S.get h' k) :
    h' = h ∧ k = s.name ∧ ∀ x, S'.get h' k = some x → s.Accepts T x := by
  cases he with
  | keep => exact absurd rfl hne
  | rm => by_cases hk : h' = h ∧ k = s.name <;> simp_all
  | set v hv => by_cases hk : h' = h ∧ k = s.name <;> simp_all

theorem SetEffect.get_of_ne {T : OsetTable} {s : Setting} {S S' : Vars} {h : Nat}
    (he : SetEffect T s S h S') {k : List Char} (hk : k ≠ s.name) (hub : Nat) :
    S'.get hub k = S.get hub k :=
  by_contra fun hne => hk (he.changed hne).2.1

section Setters

variable {T : OsetTable} {C : OsetCtx} {S : Vars} {s : Setting}

theorem setEncoding_effect (hf : s.fns = .encoding) (hub : Nat) (val : Option (List Char)) :
    SetEffect T s S hub (setEncoding T C S hub s.name val).1 := by
  rcases val with _ | v
  · exact .rm
  rcases hc : T.strConvertCheck v with (_ | e) | ⟨⟩
  · simp only [setEncoding, hc]; exact .keep
  · simp only [setEncoding, hc]; exact .keep
  · simp only [setEncoding, hc]
    refine .set v ?_
    simp [Setting.Accepts, hf, hc]

theorem setColor_effect (hf : s.fns = .color) (val : Option (List Char)) :
    SetEffect T s S 0 (setColor T C S s.name val).1 := by
  rcases val with _ | v
  · exact .rm
  rcases hc : T.colorStrParse v with _ | e
  · simp only [setColor, hc]
    refine .set v ?_
    simp [Setting.Accepts, hf, hc]
  · simp only [setColor, hc]; exact .keep

theorem setTlsPolicy_effect (hf : s.fns = .tlsPolicy) (hub : Nat) (val : Option (List Char)) :
    SetEffect T s S hub (setTlsPolicy T C S hub s.name val).1 := by
  rcases val with _ | v
  · exact .rm
  simp only [setTlsPolicy]
  cases C.dbCertificate
  · exact .keep
  rcases tlsPolicyIndex T v with _ | p
  · exact .keep
  · exact .set _ (by simp only [Setting.Accepts, hf]; exact ⟨p, p.isLt, rfl⟩)

theorem setDlIncDir_store {key : List Char} {val : Option (List Char)} {S' : Vars}
    {o : List OsetOut} (h : setDlIncDir C S key val = some (S', o)) :
    S' = S ∨ (val = none ∧ S' = S.rm 0 key) ∨ ∃ v, val = some v ∧ S' = S.set 0 key v := by
  dsimp only [setDlIncDir] at h
  split at h
  · cases h; exact .inl rfl
  split at h
  · cases h; exact .inl rfl
  · obtain ⟨w, -, he⟩ := Option.map_eq_some'.1 h
    simp only [Prod.mk.injEq] at he
    rw [← he.1]
    rcases val with _ | v
    · exact .inr (.inl ⟨rfl, rfl⟩)
    · exact .inr (.inr ⟨v, rfl, rfl⟩)

theorem setDlIncDir_effect (hf : s.fns = .downloadDir ∨ s.fns = .incomingDir)
    {val : Option (List Char)} {S' : Vars} {o : List OsetOut}
    (h : setDlIncDir C S s.name val = some (S', o)) : SetEffect T s S 0 S' := by
  have hacc : ∀ v, s.Accepts T v := by
    intro v; rcases hf with hf | hf <;> simp [Setting.Accepts, hf]
  rcases setDlIncDir_store h with rfl | ⟨-, rfl⟩ | ⟨v, -, rfl⟩
  · exact .keep
  · exact .rm
  · exact .set v (hacc v)

theorem settingSet_effect {hub : Nat} {val : Option (List Char)} {S' : Vars} {o : List OsetOut}
    (h : settingSet T C S s hub s.name val = some (S', o)) :
    SetEffect T s S (s.storeHub hub) S' := by
  have fst : ∀ {x : Vars × List OsetOut}, some x = some (S', o) → x.1 = S' := by
    intro x hx; rw [Option.some.inj hx]
  unfold settingSet at h
  unfold Setting.storeHub
  split at h <;> rename_i hf <;> simp only [hf]
  · rw [← fst h]; exact setColor_effect hf val
  · exact setDlIncDir_effect (.inl hf) h
  · exact setDlIncDir_effect (.inr hf) h
  · rw [← fst h]; exact setEncoding_effect hf hub val
  · rw [← fst h]; exact setTlsPolicy_effect hf hub val

theorem settingSet_none (hub : Nat) (hf : s.fns ≠ .downloadDir ∧ s.fns ≠ .incomingDir) :
    ∃ o, settingSet T C S s hub s.name none = some (S.rm (s.storeHub hub) s.name, o) := by
  unfold settingSet Setting.storeHub
  split <;> rename_i hs <;> simp only [hs] at hf ⊢ <;>
    simp_all [setColor, setEncoding, setTlsPolicy]

theorem setDlIncDir_locked {val : Option (List Char)} {S' : Vars} {o : List OsetOut}
    (hq : 0 < C.dlQueueSize) (h : setDlIncDir C S "incoming_dir".toList val = some (S', o)) :
    S' = S := by
  simp only [setDlIncDir, show strcmp "incoming_dir".toList "download_dir".toList ≠ .eq by decide,
    beq_iff_eq, decide_False, Bool.not_false, Bool.true_and, decide_eq_true_eq, hq, if_true]
    at h
  cases h; rfl

end Setters

/-! ### What a command may write -/

/-- An entry of the store that a settings command may have left at hub `h` and key `k`: the
key is a setting's name, the hub is not 0 only for `encoding` or `tls_policy` documented as
per hub, and a value there passes the setting's check. -/
def OsetEntryOk (T : OsetTable) (h : Nat) (k : List Char) (v : Option (List Char)) : Prop :=
  ∃ s ∈ settings T.colors, s.name = k ∧
    (h ≠ 0 → (s.fns = .encoding ∨ s.fns = .tlsPolicy) ∧
      ∃ d, getdoc T.docs s = some d ∧ d.hub = true) ∧
    ∀ x, v = some x → s.Accepts T x

/-- `S'` differs from `S` only at entries a settings command may leave. -/
def OsetWrote (T : OsetTable) (S S' : Vars) : Prop :=
  ∀ h k, S'.get h k ≠ S.get h k → OsetEntryOk T h k (S'.get h k)

theorem OsetWrote.refl (T : OsetTable) (S : Vars) : OsetWrote T S S :=
  fun _ _ h => absurd rfl h

theorem OsetWrote.trans {T : OsetTable} {S₁ S₂ S₃ : Vars} (h₁ : OsetWrote T S₁ S₂)
    (h₂ : OsetWrote T S₂ S₃) : OsetWrote T S₁ S₃ := by
  intro h k hne
  by_cases h32 : S₃.get h k = S₂.get h k
  · rw [h32] at hne ⊢; exact h₁ h k hne
  · exact h₂ h k h32

theorem SetEffect.wrote {T : OsetTable} {s : Setting} {S S' : Vars} {h : Nat}
    (he : SetEffect T s S h S') (hs : s ∈ settings T.colors)
    (hh : h ≠ 0 → (s.fns = .encoding ∨ s.fns = .tlsPolicy) ∧
      ∃ d, getdoc T.docs s = some d ∧ d.hub = true) : OsetWrote T S S' := by
  intro h' k hne
  obtain ⟨rfl, rfl, hacc⟩ := he.changed hne
  exact ⟨s, hs, rfl, hh, hacc⟩

theorem settingSet_wrote {T : OsetTable} {C : OsetCtx} {S S' : Vars} {p : Parsed} {hub : Nat}
    {val : Option (List Char)} {o : List OsetOut} {name : List Char}
    (hp : parsesetting T C name = some (.ok p)) (hhub : hub = p.hub ∨ hub = 0)
    (h : settingSet T C S p.setting hub p.key val = some (S', o)) : OsetWrote T S S' := by
  obtain ⟨hmem, hkey, hdoc⟩ := parsesetting_ok hp
  rw [← hkey] at h
  refine (settingSet_effect h).wrote hmem fun hne => ?_
  obtain ⟨hf, heq⟩ := Setting.storeHub_ne_zero hne
  rcases hhub with rfl | rfl
  · exact ⟨hf, hdoc (heq ▸ hne)⟩
  · exact absurd heq hne

theorem Parsed.altHub_eq (p : Parsed) (S : Vars) : p.altHub S = p.hub ∨ p.altHub S = 0 := by
  unfold Parsed.altHub; split <;> simp

theorem Parsed.altHub_of_isSome {p : Parsed} {S : Vars} (h : (S.get p.hub p.key).isSome) :
    p.altHub S = p.hub := by
  simp [Parsed.altHub, h]

/-! ### From the setters to the commands -/

/-- `R` holds between the stores before and after every setter call a command can make: on a
row `parsesetting` handed on, at the parsed hub or at hub 0. -/
def SetterKeeps (T : OsetTable) (C : OsetCtx) (R : Vars → Vars → Prop) : Prop :=
  ∀ {S S' : Vars} {name : List Char} {p : Parsed} {hub : Nat} {val : Option (List Char)}
    {o : List OsetOut}, parsesetting T C name = some (.ok p) → (hub = p.hub ∨ hub = 0) →
      settingSet T C S p.setting hub p.key val = some (S', o) → R S S'

theorem setterKeeps_wrote (T : OsetTable) (C : OsetCtx) : SetterKeeps T C (OsetWrote T) := by
  intro _ _ _ _ _ _ _ hp hh hs
  exact settingSet_wrote hp hh hs

section Commands

variable {T : OsetTable} {C : OsetCtx} {R : Vars → Vars → Prop}

theorem cOsetArg_rel (hrefl : ∀ S, R S S) (hset : SetterKeeps T C R) {S S' : Vars}
    {args : List Char} {o : List OsetOut} (h : cOsetArg T C S args = some (S', o)) : R S S' := by
  rcases hsv : splitValue args with ⟨name, val⟩
  rcases hp : parsesetting T C name with _ | m | p
  · simp [cOsetArg, hsv, hp] at h
  · simp only [cOsetArg, hsv, hp, Option.some.injEq, Prod.mk.injEq] at h
    rw [← h.1]; exact hrefl S
  · simp only [cOsetArg, hsv, hp] at h
    split at h
    · exact hset hp (.inl rfl) h
    · cases h; exact hrefl S

theorem Vars.thread_rel {α : Type} (hrefl : ∀ S, R S S)
    (htrans : ∀ {a b c}, R a b → R b c → R a c)
    {f : α → Vars → Option (Vars × List OsetOut)} {xs : List α}
    (hf : ∀ x ∈ xs, ∀ {S S' o}, f x S = some (S', o) → R S S') :
    ∀ {acc r}, Vars.thread f acc xs = some r → R acc.1 r.1 := by
  induction xs with
  | nil => intro acc r h; cases h; exact hrefl _
  | cons x xs ih =>
    intro acc r h
    rcases hx : f x acc.1 with _ | ⟨S', o⟩
    · simp [Vars.thread, List.foldlM_cons, hx] at h
    · have ht : Vars.thread f (S', acc.2 ++ o) xs = some r := by
        simpa [Vars.thread, List.foldlM_cons, hx] using h
      exact htrans (hf x (List.mem_cons_self x xs) hx)
        (ih (fun y hy => hf y (List.mem_cons_of_mem x hy)) ht)

theorem cOset_rel (hrefl : ∀ S, R S S) (htrans : ∀ {a b c}, R a b → R b c → R a c)
    (hset : SetterKeeps T C R) {S S' : Vars} {args : List Char} {o : List OsetOut}
    (h : cOset T C S args = some (S', o)) : R S S' := by
  unfold cOset at h
  split_ifs at h
  · rcases ht : Vars.thread (fun s S => cOsetArg T C S s.name) (S, [.msg []])
      (settings T.colors) with _ | r
    · simp [ht] at h
    · simp only [ht, Option.bind_eq_bind, Option.some_bind, Option.pure_def,
        Option.some.injEq, Prod.mk.injEq] at h
      rw [← h.1]
      exact Vars.thread_rel hrefl htrans (fun _ _ _ _ _ hx => cOsetArg_rel hrefl hset hx) ht
  · exact cOsetArg_rel hrefl hset h

theorem cOunset_rel (hrefl : ∀ S, R S S) (htrans : ∀ {a b c}, R a b → R b c → R a c)
    (hset : SetterKeeps T C R) {S S' : Vars} {args : List Char} {o : List OsetOut}
    (h : cOunset T C S args = some (S', o)) : R S S' := by
  unfold cOunset at h
  split_ifs at h
  · exact cOset_rel hrefl htrans hset h
  rcases hp : parsesetting T C args with _ | m | p
  · simp [hp] at h
  · simp only [hp, Option.some.injEq, Prod.mk.injEq] at h
    rw [← h.1]; exact hrefl S
  · simp only [hp] at h
    exact hset hp (p.altHub_eq S) h

theorem osetStep_rel (hrefl : ∀ S, R S S) (htrans : ∀ {a b c}, R a b → R b c → R a c)
    (hset : SetterKeeps T C R) {S S' : Vars} {cmd : OsetCmd} {o : List OsetOut}
    (h : osetStep T C S cmd = some (S', o)) : R S S' := by
  cases cmd with
  | oset args => exact cOset_rel hrefl htrans hset h
  | ounset args => exact cOunset_rel hrefl htrans hset h

end Commands

theorem osetRun_rel {T : OsetTable} {R : Vars → Vars → Prop} (hrefl : ∀ S, R S S)
    (htrans : ∀ {a b c}, R a b → R b c → R a c) {S S' : Vars}
    {steps : List (OsetCtx × OsetCmd)} {out : List OsetOut}
    (hset : ∀ c ∈ steps, SetterKeeps T c.1 R) (h : osetRun T S steps = some (S', out)) :
    R S S' :=
  Vars.thread_rel hrefl htrans (fun c hc _ _ _ hx => osetStep_rel hrefl htrans (hset c hc) hx) h

/-! ### What a run may write -/

/-- After any run of `/oset` and `/ounset`, each in its own context, every changed entry is keyed by
a setting's name, lies under a hub other than 0 only for a per-hub `encoding` or `tls_policy`, and
holds nothing or a value the setting's check accepts. -/
theorem oset_run_writes {T : OsetTable} {S S' : Vars} {steps : List (OsetCtx × OsetCmd)}
    {out : List OsetOut} (h : osetRun T S steps = some (S', out)) :
    ∀ hub k, S'.get hub k ≠ S.get hub k → OsetEntryOk T hub k (S'.get hub k) :=
  osetRun_rel (OsetWrote.refl T) OsetWrote.trans (fun c _ => setterKeeps_wrote T c.1) h

/-- The example the theorems below are run on: no colours, the four other settings
documented, `encoding` and `tls_policy` per hub, and `UTF-8` the one encoding
`str_convert_check` takes. -/
def fourSettings : OsetTable where
  colors := []
  docs := [⟨"download_dir".toList, false, [], []⟩, ⟨"encoding".toList, true, [], []⟩,
    ⟨"incoming_dir".toList, false, [], []⟩, ⟨"tls_policy".toList, true, [], []⟩]
  strConvertCheck v := if v = "UTF-8".toList then .ok () else .error none
  colorStrParse _ := none
  tlspList i := ["disabled".toList, "allow".toList, "prefer".toList].getD i.val []
  attrNames := []

/-- The tab of hub 1, with a download queued, and a file system where every directory exists
on one device. -/
def hubOneTab : OsetCtx where
  tabHub := some 1
  hubid _ := 0
  confEncoding _ _ := "UTF-8".toList
  confTlsPolicy _ _ := 0
  confDownloadDir _ := "/dl".toList
  confIncomingDir _ := "/inc".toList
  colorStr _ _ := none
  dbCertificate := true
  haveTlsSupport := true
  dlQueueSize := 1
  dbDir := "/db".toList
  fileTest _ := some true
  makeDirectory _ := none
  stat _ := .ok 0
  pathSuggest _ := []

def emptyVars : Vars := ⟨fun _ _ => none⟩

/-- Setting the encoding of hub 1, then trying to move the incoming directory. -/
def encodingThenIncoming : List (OsetCtx × OsetCmd) :=
  [(hubOneTab, .oset "encoding UTF-8".toList), (hubOneTab, .oset "incoming_dir /x".toList)]

theorem encoding_run_writes :
    ∃ S' out, osetRun fourSettings emptyVars encodingThenIncoming = some (S', out) ∧
      ∀ hub k, S'.get hub k ≠ emptyVars.get hub k →
        OsetEntryOk fourSettings hub k (S'.get hub k) := by
  obtain ⟨S', out, h⟩ : ∃ S' out,
      osetRun fourSettings emptyVars encodingThenIncoming = some (S', out) := ⟨_, _, rfl⟩
  exact ⟨S', out, h, oset_run_writes h⟩

/-! ### The download queue locks `incoming_dir` -/

theorem setterKeeps_incoming {T : OsetTable} {C : OsetCtx} (hq : 0 < C.dlQueueSize) :
    SetterKeeps T C fun S S' =>
      ∀ hub, S'.get hub "incoming_dir".toList = S.get hub "incoming_dir".toList := by
  intro S S' name p hub val o hp _ h hub'
  obtain ⟨hmem, hkey, -⟩ := parsesetting_ok hp
  rw [← hkey] at h
  by_cases hn : p.setting.name = "incoming_dir".toList
  · have hrow : p.setting = ⟨"incoming_dir".toList, .incomingDir⟩ :=
      settings_name_inj hmem (by simp [settings]) hn
    rw [hrow] at h
    rw [setDlIncDir_locked hq h]
  · exact (settingSet_effect h).get_of_ne (Ne.symm hn) hub'

/-- A run whose commands all see a non-empty download queue leaves every value of
`incoming_dir` as it was. -/
theorem incoming_dir_locked {T : OsetTable} {S S' : Vars} {steps : List (OsetCtx × OsetCmd)}
    {out : List OsetOut} (hq : ∀ c ∈ steps, 0 < c.1.dlQueueSize)
    (h : osetRun T S steps = some (S', out)) :
    ∀ hub, S'.get hub "incoming_dir".toList = S.get hub "incoming_dir".toList :=
  osetRun_rel (fun _ _ => rfl) (fun h₁ h₂ hub => (h₂ hub).trans (h₁ hub))
    (fun c hc => setterKeeps_incoming (hq c hc)) h

/-- The same run, with the download queued: `incoming_dir` stays unset. -/
theorem queued_incoming_unchanged :
    (∀ c ∈ encodingThenIncoming, 0 < c.1.dlQueueSize) ∧
      ∃ S' out, osetRun fourSettings emptyVars encodingThenIncoming = some (S', out) ∧
        ∀ hub, S'.get hub "incoming_dir".toList = emptyVars.get hub "incoming_dir".toList := by
  have hq : ∀ c ∈ encodingThenIncoming, 0 < c.1.dlQueueSize := by
    simp [encodingThenIncoming, hubOneTab]
  obtain ⟨S', out, h⟩ : ∃ S' out,
      osetRun fourSettings emptyVars encodingThenIncoming = some (S', out) := ⟨_, _, rfl⟩
  exact ⟨hq, S', out, h, incoming_dir_locked hq h⟩

/-! ### What `/ounset` removes -/

theorem cOunset_plain {T : OsetTable} {C : OsetCtx} {S : Vars} {s : Setting} {d : DocSet}
    (hs : s ∈ settings T.colors) (hdot : '.' ∉ s.name) (hd : getdoc T.docs s = some d) :
    cOunset T C S s.name = settingSet T C S s
      (Parsed.altHub ⟨if d.hub then C.tabHub.getD 0 else 0, s.name, s, d.hub && C.tabHub.isSome⟩
        S) s.name none := by
  rw [cOunset, if_neg (Setting.name_ne_nil hs), parsesetting_plain hs hdot hd]

/-- `/ounset encoding` or `/ounset tls_policy`, in any context and on any store, removes one
entry: the value of the hub of the current tab if the setting is documented as per hub and
that hub has a value of its own, and the global value otherwise. -/
theorem ounset_target {T : OsetTable} {C : OsetCtx} {S : Vars} {s : Setting} {d : DocSet}
    (hs : s ∈ settings T.colors) (hfns : s.fns = .encoding ∨ s.fns = .tlsPolicy)
    (hd : getdoc T.docs s = some d) :
    ∃ out, cOunset T C S s.name = some (S.rm (match C.tabHub with
      | some t => if d.hub ∧ (S.get t s.name).isSome then t else 0
      | none => 0) s.name, out) := by
  have hdot : '.' ∉ s.name := by
    rcases mem_settings hs with ⟨hf, -⟩ | rfl | rfl | rfl | rfl <;> simp_all
  have hdir : s.fns ≠ .downloadDir ∧ s.fns ≠ .incomingDir := by
    rcases hfns with hf | hf <;> simp [hf]
  have hstore : ∀ hub, s.storeHub hub = hub := by
    intro hub; unfold Setting.storeHub; rcases hfns with hf | hf <;> simp [hf]
  obtain ⟨o, ho⟩ := settingSet_none (T := T) (C := C) (S := S)
    (Parsed.altHub ⟨if d.hub then C.tabHub.getD 0 else 0, s.name, s, d.hub && C.tabHub.isSome⟩
      S) hdir
  refine ⟨o, ?_⟩
  rw [cOunset_plain hs hdot hd, ho, hstore]
  rcases C.tabHub with _ | t <;> cases d.hub <;> simp [Parsed.altHub]
  cases S.get t s.name <;> rfl

/-- `/ounset encoding` in the tab of hub 1, which has an encoding of its own, removes that. -/
theorem ounset_hub_encoding :
    ∃ out, cOunset fourSettings hubOneTab (emptyVars.set 1 "encoding".toList "UTF-8".toList)
      "encoding".toList =
        some ((emptyVars.set 1 "encoding".toList "UTF-8".toList).rm 1 "encoding".toList, out) :=
  ounset_target (T := fourSettings) (C := hubOneTab) (s := ⟨"encoding".toList, .encoding⟩)
    (d := ⟨"encoding".toList, true, [], []⟩) (by simp [fourSettings, settings]) (.inl rfl) rfl

/-! ### Setting and resetting -/

/-- For a setting other than the two directories that has no value under any hub, `/oset`
with any value and then `/ounset`, in the same context, leave the store as it was: the reset
removes exactly what the set wrote, whether it wrote the hub's value or the global one. -/
theorem oset_then_ounset {T : OsetTable} {C : OsetCtx} {S S₁ : Vars} {s : Setting}
    {v : List Char} {out : List OsetOut} (hs : s ∈ settings T.colors)
    (hfns : s.fns ≠ .downloadDir ∧ s.fns ≠ .incomingDir)
    (hname : ' ' ∉ s.name ∧ '.' ∉ s.name)
    (hfresh : ∀ hub, S.get hub s.name = none)
    (hset : cOset T C S (s.name ++ ' ' :: v) = some (S₁, out)) :
    ∃ out', cOunset T C S₁ s.name = some (S, out') := by
  have hsplit : splitValue (s.name ++ ' ' :: v) = (s.name, some (gStrstrip v)) := by
    simp [splitValue, index_append_cons _ hname.1]
  have hne : s.name ++ ' ' :: v ≠ [] := by simp
  rcases hd : getdoc T.docs s with _ | d
  · simp [cOset, hne, cOsetArg, hsplit, parsesetting_none_of_getdoc hs hname.2 hd] at hset
  set p : Parsed := ⟨if d.hub then C.tabHub.getD 0 else 0, s.name, s, d.hub && C.tabHub.isSome⟩
  have hS₁ : S₁ = S ∨ ∃ w, S₁ = S.set (s.storeHub p.hub) s.name w := by
    simp only [cOset, hne, if_false, cOsetArg, hsplit, parsesetting_plain hs hname.2 hd] at hset
    split at hset
    · rcases settingSet_effect hset with _ | _ | ⟨w, -⟩
      · exact .inl rfl
      · exact .inl (Vars.rm_of_get_none (hfresh _))
      · exact .inr ⟨w, rfl⟩
    · exact .inl (congrArg Prod.fst (Option.some.inj hset)).symm
  obtain ⟨o, ho⟩ := settingSet_none (T := T) (C := C) (S := S₁) (p.altHub S₁) hfns
  refine ⟨o, ?_⟩
  rw [cOunset_plain hs hname.2 hd, ho]
  rcases hS₁ with rfl | ⟨w, rfl⟩
  · rw [Vars.rm_of_get_none (hfresh _)]
  · have hhub : s.storeHub (p.altHub (S.set (s.storeHub p.hub) s.name w)) = s.storeHub p.hub := by
      unfold Setting.storeHub
      split
      case h_3 => rfl
      all_goals rw [Parsed.altHub_of_isSome]; simp [Setting.storeHub, *]
    rw [hhub, Vars.rm_set_of_get_none (hfresh _)]

/-- Setting and resetting the encoding in the tab of hub 1. -/
theorem encoding_set_reset :
    ∃ S₁ out, cOset fourSettings hubOneTab emptyVars "encoding UTF-8".toList =
        some (S₁, out) ∧
      ∃ out', cOunset fourSettings hubOneTab S₁ "encoding".toList = some (emptyVars, out') := by
  obtain ⟨S₁, out, h⟩ : ∃ S₁ out,
      cOset fourSettings hubOneTab emptyVars "encoding UTF-8".toList = some (S₁, out) :=
    ⟨_, _, rfl⟩
  exact ⟨S₁, out, h, oset_then_ounset (s := ⟨"encoding".toList, .encoding⟩)
    (v := "UTF-8".toList) (by simp [fourSettings, settings]) (by simp) (by decide)
    (fun _ => rfl) h⟩

end Ncdc
