import Ncdc.Config.Oset

/-!
Completion of `/oset` against the command it completes. `c_oset_sug` offers the names of
settings that extend the typed text, and after a space the suggestions of the setting named,
which `c_oset` parses back to the same setting.
-/

namespace Ncdc

/-! ### The suggesters -/

theorem mem_strictCaseSug {names : List (List Char)} {val e : List Char}
    (h : e ∈ strictCaseSug names val) :
    e ∈ names ∧ (e.take val.length).map Char.toLower = val.map Char.toLower ∧
      val.length < e.length := by
  obtain ⟨he, hm⟩ := List.mem_filter.1 (List.mem_of_mem_take h)
  simp only [gAsciiStrncasecmp, List.take_length, Bool.and_eq_true, decide_eq_true_eq,
    strcmp_eq_iff, bne_iff_ne, ne_eq] at hm
  have hlen := congrArg List.length hm.1
  simp only [List.length_map, List.length_take] at hlen
  exact ⟨he, hm.1.symm, by omega⟩

theorem mem_strictCaseSug_of {names : List (List Char)} {val e : List Char}
    (hn : names.length ≤ 20) (he : e ∈ names)
    (hpre : (e.take val.length).map Char.toLower = val.map Char.toLower)
    (hlen : val.length < e.length) : e ∈ strictCaseSug names val := by
  rw [strictCaseSug, List.take_of_length_le ((List.filter_sublist _).length_le.trans hn)]
  refine List.mem_filter.2 ⟨he, ?_⟩
  simp [gAsciiStrncasecmp, strcmp_eq_iff, hpre, Nat.ne_of_gt hlen]

theorem mem_cOsetSugkey {colors : List (List Char)} {args c : List Char}
    (h : c ∈ cOsetSugkey colors args) :
    ∃ s ∈ settings colors, s.name = c ∧ c.take args.length = args ∧ args.length < c.length := by
  obtain ⟨s, hs, rfl⟩ := List.mem_map.1 h
  obtain ⟨hs, hm⟩ := List.mem_filter.1 (List.mem_of_mem_take hs)
  simp only [Bool.and_eq_true, decide_eq_true_eq, strncmp_eq_iff, bne_iff_ne, ne_eq] at hm
  have hlen := congrArg List.length hm.1
  simp only [List.length_take] at hlen
  exact ⟨s, hs, rfl, hm.1, by omega⟩

theorem cOsetSugkey_complete {colors : List (List Char)} {args : List Char}
    (hlt : (cOsetSugkey colors args).length < 20) {s : Setting} (hs : s ∈ settings colors)
    (hpre : s.name.take args.length = args) (hlen : args.length < s.name.length) :
    s.name ∈ cOsetSugkey colors args := by
  simp only [cOsetSugkey, List.length_map, List.length_take] at hlt
  rw [cOsetSugkey, List.take_of_length_le (by omega)]
  refine List.mem_map.2 ⟨s, List.mem_filter.2 ⟨hs, ?_⟩, rfl⟩
  simp [strncmp_eq_iff, hpre, Nat.ne_of_gt hlen]

/-! ### Typing a completion back

The two branches of `c_oset_sug`, and what `c_oset` does with a line of each shape. -/

section Commands

variable {T : OsetTable} {C : OsetCtx} {S : Vars}

theorem cOsetSug_key {args : List Char} (hsp : ' ' ∉ args) :
    cOsetSug T C args = some ([], cOsetSugkey T.colors args) := by
  simp [cOsetSug, index_eq_none hsp]

theorem cOsetSug_value {pre rest : List Char} {p : Parsed} (hpre : ' ' ∉ pre)
    (hp : parsesetting T C pre = some (.ok p)) :
    cOsetSug T C (pre ++ ' ' :: rest) =
      some ([], (settingSuggest T C p.setting rest).map (pre ++ ' ' :: ·)) := by
  simp [cOsetSug, index_append_cons _ hpre, hp]

theorem cOset_completion {pre e : List Char} {p : Parsed} (hpre : ' ' ∉ pre)
    (hp : parsesetting T C pre = some (.ok p)) (he : gStrstrip e ≠ []) :
    cOset T C S (pre ++ ' ' :: e) =
      settingSet T C S p.setting p.hub p.key (some (gStrstrip e)) := by
  obtain ⟨c, cs, hcs⟩ := List.exists_cons_of_ne_nil he
  simp [cOset, cOsetArg, splitValue, index_append_cons _ hpre, hp, hcs]

theorem cOset_name {s : Setting} {d : DocSet} (hs : s ∈ settings T.colors)
    (hsp : ' ' ∉ s.name) (hdot : '.' ∉ s.name) (hd : getdoc T.docs s = some d) :
    cOset T C S s.name = some (S, settingGet T C S s
      (Parsed.altHub ⟨if d.hub then C.tabHub.getD 0 else 0, s.name, s, d.hub && C.tabHub.isSome⟩
        S) s.name) := by
  simp [cOset, Setting.name_ne_nil hs, cOsetArg, splitValue, index_eq_none hsp,
    parsesetting_plain hs hdot hd]

theorem tlsPolicyIndex_name
    (hnames : List.Nodup ["0".toList, "1".toList, "2".toList, T.tlspList 0, T.tlspList 1,
      T.tlspList 2]) (i : Fin 3) :
    tlsPolicyIndex T (T.tlspList i) = some i := by
  simp only [List.nodup_cons, List.mem_cons, List.mem_singleton, List.not_mem_nil, or_false,
    not_or, List.nodup_nil, and_true] at hnames
  obtain ⟨⟨-, -, -, h01, h02⟩, ⟨-, -, -, h12⟩, -, ⟨h01', h02'⟩, h12', -⟩ := hnames
  simp only [String.toList, String.data] at h01 h02 h12
  fin_cases i <;> simp [tlsPolicyIndex, strcmp_eq_iff, Ne.symm h01, Ne.symm h02, Ne.symm h12,
    Ne.symm h01', Ne.symm h02', Ne.symm h12']

theorem setTlsPolicy_index {hub : Nat} {key v : List Char} {i : Fin 3}
    (hcert : C.dbCertificate = true) (hi : tlsPolicyIndex T v = some i) :
    (setTlsPolicy T C S hub key (some v)).1 = S.set hub key (decimal i) := by
  simp [setTlsPolicy, hcert, hi]

end Commands

/-! ### Completion and command agree -/

/-- For every table and text typed with no space, `c_oset_sug` prints nothing and offers at most 20
longer setting names extending the text, below 20 all of them. `/oset` of an offer with no space or
`.`, whose setting is documented, shows it and leaves the store alone. -/
theorem completed_key_shown {T : OsetTable} {C : OsetCtx} {S : Vars} {args : List Char}
    (hsp : ' ' ∉ args) :
    ∃ sugs, cOsetSug T C args = some ([], sugs) ∧ sugs.length ≤ 20 ∧
      (∀ c ∈ sugs, c.take args.length = args ∧ args.length < c.length ∧
        ∃ s ∈ settings T.colors, s.name = c ∧
          (' ' ∉ c → '.' ∉ c → (getdoc T.docs s).isSome →
            ∃ hub, cOset T C S c = some (S, settingGet T C S s hub c))) ∧
      (sugs.length < 20 → ∀ s ∈ settings T.colors, s.name.take args.length = args →
        args.length < s.name.length → s.name ∈ sugs) := by
  refine ⟨_, cOsetSug_key hsp, ?_, fun c hc => ?_, fun hlt s hs => cOsetSugkey_complete hlt hs⟩
  · simp only [cOsetSugkey, List.length_map]; exact List.length_take_le _ _
  obtain ⟨s, hs, rfl, hpre, hlen⟩ := mem_cOsetSugkey hc
  refine ⟨hpre, hlen, s, hs, rfl, fun hsp' hdot hd => ?_⟩
  obtain ⟨d, hd⟩ := Option.isSome_iff_exists.1 hd
  exact ⟨_, cOset_name hs hsp' hdot hd⟩

/-- Completing `in` with the four settings of `fourSettings`. -/
theorem in_completes_to_incoming_dir :
    ' ' ∉ "in".toList ∧
      ∃ sugs, cOsetSug fourSettings hubOneTab "in".toList = some ([], sugs) ∧ sugs.length ≤ 20 ∧
        (∀ c ∈ sugs, c.take "in".toList.length = "in".toList ∧ "in".toList.length < c.length ∧
          ∃ s ∈ settings fourSettings.colors, s.name = c ∧
            (' ' ∉ c → '.' ∉ c → (getdoc fourSettings.docs s).isSome →
              ∃ hub, cOset fourSettings hubOneTab emptyVars c =
                some (emptyVars, settingGet fourSettings hubOneTab emptyVars s hub c))) ∧
        (sugs.length < 20 → ∀ s ∈ settings fourSettings.colors,
          s.name.take "in".toList.length = "in".toList →
          "in".toList.length < s.name.length → s.name ∈ sugs) :=
  have hs : ' ' ∉ "in".toList := by decide
  ⟨hs, completed_key_shown hs⟩

/-- After a name that `parsesetting` resolves to `tls_policy` and a space, `c_oset_sug` offers
exactly the longer policy names extending the rest of the line, and `/oset` of an offer stores that
policy's number. This holds for every table whose six spellings of the policies differ, in every
context with a client certificate. -/
theorem completed_tls_policy_stored {T : OsetTable} {C : OsetCtx} {S : Vars}
    {pre rest : List Char} {p : Parsed}
    (hnames : List.Nodup ["0".toList, "1".toList, "2".toList, T.tlspList 0, T.tlspList 1,
      T.tlspList 2])
    (hstrip : ∀ i, gStrstrip (T.tlspList i) = T.tlspList i) (hcert : C.dbCertificate = true)
    (hpre : ' ' ∉ pre) (hp : parsesetting T C pre = some (.ok p))
    (htls : p.setting.fns = .tlsPolicy) :
    ∃ sugs, cOsetSug T C (pre ++ ' ' :: rest) = some ([], sugs) ∧
      (∀ c ∈ sugs, ∃ i : Fin 3, c = pre ++ ' ' :: T.tlspList i ∧
        ((T.tlspList i).take rest.length).map Char.toLower = rest.map Char.toLower ∧
        rest.length < (T.tlspList i).length ∧
        ∃ out, cOset T C S c = some (S.set p.hub p.key (decimal i), out)) ∧
      ∀ i : Fin 3, ((T.tlspList i).take rest.length).map Char.toLower = rest.map Char.toLower →
        rest.length < (T.tlspList i).length → pre ++ ' ' :: T.tlspList i ∈ sugs := by
  have hsug : settingSuggest T C p.setting rest = setTlsPolicySug T rest := by
    simp [settingSuggest, htls]
  refine ⟨_, cOsetSug_value hpre hp, fun c hc => ?_, fun i hcase hlen => ?_⟩
  · rw [hsug] at hc
    obtain ⟨e, he, rfl⟩ := List.mem_map.1 hc
    obtain ⟨hmem, hcase, hlen⟩ := mem_strictCaseSug he
    obtain ⟨i, rfl⟩ : ∃ i : Fin 3, T.tlspList i = e := by
      simp only [List.mem_cons, List.mem_singleton, List.not_mem_nil, or_false] at hmem
      rcases hmem with rfl | rfl | rfl <;> exact ⟨_, rfl⟩
    have hne : gStrstrip (T.tlspList i) ≠ [] := by
      rw [hstrip]; exact List.ne_nil_of_length_pos (by omega)
    refine ⟨i, rfl, hcase, hlen, (setTlsPolicy T C S p.hub p.key (some (T.tlspList i))).2, ?_⟩
    rw [cOset_completion hpre hp hne, hstrip]
    simp only [settingSet, htls]
    exact congrArg some (Prod.ext (setTlsPolicy_index hcert (tlsPolicyIndex_name hnames i)) rfl)
  · rw [hsug]
    refine List.mem_map.2 ⟨_, mem_strictCaseSug_of (by simp) ?_ hcase hlen, rfl⟩
    fin_cases i <;> simp

/-- Completing `tls_policy a` in the tab of hub 1. -/
theorem tls_policy_allow_completed :
    List.Nodup ["0".toList, "1".toList, "2".toList, fourSettings.tlspList 0,
        fourSettings.tlspList 1, fourSettings.tlspList 2] ∧
      (∀ i, gStrstrip (fourSettings.tlspList i) = fourSettings.tlspList i) ∧
      hubOneTab.dbCertificate = true ∧ ' ' ∉ "tls_policy".toList ∧
      parsesetting fourSettings hubOneTab "tls_policy".toList =
        some (.ok ⟨1, "tls_policy".toList, ⟨"tls_policy".toList, .tlsPolicy⟩, true⟩) ∧
      ∃ sugs, cOsetSug fourSettings hubOneTab ("tls_policy".toList ++ ' ' :: "a".toList) =
          some ([], sugs) ∧
        (∀ c ∈ sugs, ∃ i : Fin 3, c = "tls_policy".toList ++ ' ' :: fourSettings.tlspList i ∧
          ((fourSettings.tlspList i).take "a".toList.length).map Char.toLower =
            "a".toList.map Char.toLower ∧
          "a".toList.length < (fourSettings.tlspList i).length ∧
          ∃ out, cOset fourSettings hubOneTab emptyVars c =
            some (emptyVars.set 1 "tls_policy".toList (decimal i), out)) ∧
        ∀ i : Fin 3, ((fourSettings.tlspList i).take "a".toList.length).map Char.toLower =
            "a".toList.map Char.toLower →
          "a".toList.length < (fourSettings.tlspList i).length →
          "tls_policy".toList ++ ' ' :: fourSettings.tlspList i ∈ sugs :=
  have hn : List.Nodup ["0".toList, "1".toList, "2".toList, fourSettings.tlspList 0,
      fourSettings.tlspList 1, fourSettings.tlspList 2] := by decide
  have hs : ∀ i, gStrstrip (fourSettings.tlspList i) = fourSettings.tlspList i := by decide
  have hsp : ' ' ∉ "tls_policy".toList := by decide
  have hp : parsesetting fourSettings hubOneTab "tls_policy".toList =
      some (.ok ⟨1, "tls_policy".toList, ⟨"tls_policy".toList, .tlsPolicy⟩, true⟩) := rfl
  ⟨hn, hs, rfl, hsp, hp, completed_tls_policy_stored hn hs rfl hsp hp rfl⟩

end Ncdc
