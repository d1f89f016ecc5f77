import Ncdc.Cc.Adcget

/-!
`adc_escape` and `adc_unescape`, the codec of ADC parameter values, and the identifier the
`$ADCSND` header of a `file` request echoes: the peer's own, whenever it holds no raw newline.
-/

namespace Ncdc

namespace NmdcCc

/-! ### `adc_unescape` -/

theorem adcUnescape_plain {c : Char} (h : c ≠ '\\') (s : List Char) :
    adcUnescape (c :: s) = (adcUnescape s).map (c :: ·) :=
  adcUnescape.eq_6 c s (fun _ e => absurd e h) (fun _ e => absurd e h) (fun _ e => absurd e h) h

/-- Where `adc_unescape` gives up: reading the escapes from the left, a backslash that
starts one is followed by none of `s`, `n` and a backslash, or ends the string. -/
inductive BadEscape : List Char → Prop
  | stray (rest : List Char) (h : ∀ c ∈ rest.head?, c ≠ 's' ∧ c ≠ 'n' ∧ c ≠ '\\') :
      BadEscape ('\\' :: rest)
  | escaped (c : Char) (rest : List Char) (hc : c = 's' ∨ c = 'n' ∨ c = '\\') :
      BadEscape rest → BadEscape ('\\' :: c :: rest)
  | plain (c : Char) (rest : List Char) (hc : c ≠ '\\') :
      BadEscape rest → BadEscape (c :: rest)

theorem badEscape_escaped_iff {c : Char} (hc : c = 's' ∨ c = 'n' ∨ c = '\\')
    (rest : List Char) : BadEscape ('\\' :: c :: rest) ↔ BadEscape rest := by
  refine ⟨fun h => ?_, BadEscape.escaped c rest hc⟩
  cases h with
  | stray _ h => rcases hc with rfl | rfl | rfl <;> simp at h
  | escaped _ _ _ h => exact h
  | plain _ _ h => exact absurd rfl h

theorem badEscape_plain_iff {c : Char} (hc : c ≠ '\\') (rest : List Char) :
    BadEscape (c :: rest) ↔ BadEscape rest := by
  refine ⟨fun h => ?_, BadEscape.plain c rest hc⟩
  cases h with
  | stray => exact absurd rfl hc
  | escaped => exact absurd rfl hc
  | plain _ _ _ h => exact h

theorem adcUnescape_eq_none_iff (t : List Char) : adcUnescape t = none ↔ BadEscape t := by
  induction t using adcUnescape.induct with
  | case1 => exact iff_of_false (by simp [adcUnescape]) (by rintro ⟨⟩)
  | case2 s ih =>
      rw [adcUnescape, Option.map_eq_none', ih, badEscape_escaped_iff (by simp)]
  | case3 s ih =>
      rw [adcUnescape, Option.map_eq_none', ih, badEscape_escaped_iff (by simp)]
  | case4 s ih =>
      rw [adcUnescape, Option.map_eq_none', ih, badEscape_escaped_iff (by simp)]
  | case5 tail hs hn hb =>
      refine iff_of_true (adcUnescape.eq_5 tail hs hn hb) (BadEscape.stray tail ?_)
      rintro c hc
      obtain ⟨r, rfl⟩ : ∃ r, tail = c :: r := by
        cases tail with
        | nil => cases hc
        | cons d r => cases hc; exact ⟨r, rfl⟩
      exact ⟨fun e => hs r (e ▸ rfl), fun e => hn r (e ▸ rfl), fun e => hb r (e ▸ rfl)⟩
  | case6 c s _ _ _ hc ih =>
      rw [adcUnescape_plain hc, Option.map_eq_none', ih, badEscape_plain_iff hc]

/-! ### The round trips -/

theorem adcUnescape_adcEscape : ∀ s : List Char, adcUnescape (adcEscape s) = some s
  | [] => rfl
  | c :: s => by
      have ih := adcUnescape_adcEscape s
      rw [adcEscape]
      split_ifs with h₁ h₂ h₃
      · subst h₁; show adcUnescape ('\\' :: 's' :: adcEscape s) = _; rw [adcUnescape, ih]; rfl
      · subst h₂; show adcUnescape ('\\' :: 'n' :: adcEscape s) = _; rw [adcUnescape, ih]; rfl
      · subst h₃; show adcUnescape ('\\' :: '\\' :: adcEscape s) = _; rw [adcUnescape, ih]; rfl
      · rw [List.singleton_append, adcUnescape_plain h₃, ih, Option.map_some']

theorem adcEscape_adcUnescape {t u : List Char} (hs : ' ' ∉ t) (hn : '\n' ∉ t)
    (h : adcUnescape t = some u) : adcEscape u = t := by
  induction t using adcUnescape.induct generalizing u with
  | case1 => cases h; rfl
  | case2 s ih | case3 s ih | case4 s ih =>
      rw [adcUnescape, Option.map_eq_some'] at h
      obtain ⟨u', hu', rfl⟩ := h
      rw [adcEscape, ih (fun m => hs (by simp [m])) (fun m => hn (by simp [m])) hu']
      rfl
  | case5 tail hs' hn' hb' => rw [adcUnescape.eq_5 tail hs' hn' hb'] at h; cases h
  | case6 c s _ _ _ hc ih =>
      rw [adcUnescape_plain hc, Option.map_eq_some'] at h
      obtain ⟨u', hu', rfl⟩ := h
      have hcs : c ≠ ' ' := fun e => hs (e ▸ List.mem_cons_self _ _)
      have hcn : c ≠ '\n' := fun e => hn (e ▸ List.mem_cons_self _ _)
      rw [adcEscape, if_neg hcs, if_neg hcn, if_neg hc, List.singleton_append,
        ih (fun m => hs (List.mem_cons_of_mem _ m)) (fun m => hn (List.mem_cons_of_mem _ m)) hu']

/-! ### The `$ADCSND` header -/

theorem run_mem {ok : Char → Bool} {s w r : List Char} (h : run ok s = some (w, r)) :
    ∀ c ∈ w, ok c = true := by
  unfold run at h
  split_ifs at h
  cases h
  exact fun c hc => List.mem_takeWhile_imp hc

theorem matchAdcget_id_no_space {cmd : List Char} {a : AdcgetArgs}
    (h : matchAdcget cmd = some a) : ' ' ∉ a.id := by
  simp only [matchAdcget, Option.bind_eq_bind, Option.bind_eq_some, Option.pure_def,
    Option.some.injEq] at h
  obtain ⟨-, -, -, -, s₃, -, ⟨id, s₄⟩, hf, -, -, -, -, -, -, -, -, rfl⟩ := h
  intro m
  simpa using run_mem (show run (· != ' ') s₃ = some (id, s₄) from hf) ' ' m

theorem adcgetSend_adcsnd (s : Cc) (p : Nat) (c : CcSession) {id path vpath : List Char}
    {start bytes size : Nat} {slot : Bool} {m : List Char}
    (h : CcOut.send ("$ADCSND file ".toList ++ m) ∈
      (adcgetSend s p c id path vpath start bytes size slot).2.1) :
    adcEscape id ++ [' '] <+: m := by
  simp only [adcgetSend, netSend, List.mem_append] at h
  rcases h with h | h <;> split_ifs at h <;> simp only [List.mem_singleton, List.not_mem_nil,
    CcOut.send.injEq, reduceCtorEq] at h
  obtain rfl := List.append_cancel_left h
  exact ⟨decimal start ++ ' ' :: decimal bytes, by simp⟩

theorem handleAdcget_adcsnd (E : CcEnv) (s : Cc) (p : Nat) (c : CcSession)
    {type id : List Char} {start : Nat} {bytes : Int} {r : AdcgetResult} {m : List Char}
    (h : handleAdcget E s p c type id start bytes = some r)
    (hm : CcOut.send ("$ADCSND file ".toList ++ m) ∈ r.2.1) : adcEscape id ++ [' '] <+: m := by
  unfold handleAdcget at h
  split_ifs at h
  · cases h
    unfold adcgetTthl at hm
    split_ifs at hm
    · split at hm
      · cases hm
      · simp [netSend] at hm
    · cases hm
  · cases h; cases hm
  · have hna : ∀ (v : Option (List Char)) (r : AdcgetResult),
        v.map (fun _ => (s, [], some (0, "File Not Available".toList))) = some r → r.2.1 = [] := by
      intro v r hr; obtain ⟨_, -, rfl⟩ := Option.map_eq_some'.1 hr; rfl
    dsimp only at h
    split at h
    · split_ifs at h
      · rw [hna _ r h] at hm; cases hm
      · obtain ⟨n, -, h⟩ := Option.bind_eq_some.1 h
        split_ifs at h
        · cases h; exact adcgetSend_adcsnd s p c hm
        · cases h; cases hm
      · cases h; exact adcgetSend_adcsnd s p c hm
    · rw [hna _ r h] at hm; cases hm

/-- Every `$ADCSND file` header sent for a `$ADCGET` frame escapes what `adc_unescape` read
from the frame's identifier: the other tests of `handle_cmd` do not match the frame, and
the `$Error` and `$MaxedOut` replies are not headers. -/
theorem handleCmd_adcsnd (E : CcEnv) (s : Cc) (p : Nat) {cmd : List Char} {a : AdcgetArgs}
    {r : Cc × List CcOut} {m : List Char} (hmatch : matchAdcget cmd = some a)
    (h : handleCmd E s p cmd = some r) (hm : CcOut.send ("$ADCSND file ".toList ++ m) ∈ r.2) :
    ∃ id, adcUnescape a.id = some id ∧ adcEscape id ++ [' '] <+: m := by
  obtain ⟨h₁, h₂, h₃⟩ := matchAdcget_excludes hmatch
  simp only [handleCmd, Option.bind_eq_bind, Option.bind_eq_some] at h
  obtain ⟨c, -, h⟩ := h
  simp only [List.foldlM_cons, List.foldlM_nil, runCcBranch, ccMynick, ccLock, ccSupports, h₁, h₂,
    h₃, ccAdcget, hmatch, Option.map_some', Option.some_bind, Option.bind_eq_bind,
    List.nil_append, Option.bind_eq_some, Option.map_eq_some', Option.pure_def,
    Option.some.injEq] at h
  obtain ⟨_, ⟨x, ⟨c', -, hx⟩, rfl⟩, rfl⟩ := h
  split_ifs at hx
  · cases hx; cases hm
  cases hu : adcUnescape a.id with
  | none => rw [hu] at hx; cases hx; cases hm
  | some id =>
      rw [hu] at hx
      refine ⟨id, rfl, ?_⟩
      obtain ⟨⟨s', out, err⟩, hh, hx⟩ := Option.bind_eq_some.1 hx
      cases err with
      | none => cases hx; exact handleAdcget_adcsnd E _ p c' hh hm
      | some e =>
          obtain ⟨c'', -, hx⟩ := Option.bind_eq_some.1 hx
          cases hx
          rcases List.mem_append.1 hm with hm | hm
          · exact handleAdcget_adcsnd E _ p c' hh hm
          · simp only [netSend] at hm
            split_ifs at hm <;> simp at hm

end NmdcCc

open NmdcCc

/-- `adc_escape` and `adc_unescape` are inverse on texts with no raw space or newline, and
`adc_unescape` fails exactly on a bad escape. The `$ADCSND file` header for a `$ADCGET` identifier
with no raw newline carries that identifier. -/
theorem adc_escape_codec :
    (∀ s, adcUnescape (adcEscape s) = some s) ∧
      (∀ t u, ' ' ∉ t → '\n' ∉ t → adcUnescape t = some u → adcEscape u = t) ∧
      (∀ t, adcUnescape t = none ↔ BadEscape t) ∧
      ∀ (E : CcEnv) (s : Cc) (p : Nat) (cmd : List Char) (a : AdcgetArgs) (r : Cc × List CcOut)
        (m : List Char), matchAdcget cmd = some a → '\n' ∉ a.id → handleCmd E s p cmd = some r →
        CcOut.send ("$ADCSND file ".toList ++ m) ∈ r.2 → a.id ++ [' '] <+: m := by
  refine ⟨adcUnescape_adcEscape, fun _ _ => adcEscape_adcUnescape, adcUnescape_eq_none_iff,
    fun E s p cmd a r m hmatch hn h hm => ?_⟩
  obtain ⟨id, hu, hp⟩ := handleCmd_adcsnd E s p hmatch h hm
  rwa [adcEscape_adcUnescape (matchAdcget_id_no_space hmatch) hn hu] at hp

/-- A share where every path names a file of 20000 bytes. -/
def anyPathEnv : CcEnv :=
  { oneSlotEnv with share := { oneSlotEnv.share with fromPath := fun id => some (some id, id) } }

/-- `bob` asks for `/a b`, escaped as `/a\sb`, and the header echoes `/a\sb`. -/
theorem escaped_space_echoed :
    adcEscape "/a b".toList = "/a\\sb".toList ∧
      ∃ r, handleCmd anyPathEnv bobRegistry 0 "$ADCGET file /a\\sb 0 -1".toList = some r ∧
        CcOut.send "$ADCSND file /a\\sb 0 20000".toList ∈ r.2 ∧
        "/a\\sb ".toList <+: "/a\\sb 0 20000".toList :=
  ⟨adc_escape_codec.2.1 _ _ (by decide) (by decide) rfl, _, rfl, List.mem_cons_self _ _,
    adc_escape_codec.2.2.2 anyPathEnv bobRegistry 0 "$ADCGET file /a\\sb 0 -1".toList
      ⟨"file".toList, "/a\\sb".toList, "0".toList, "-1".toList⟩ _ "/a\\sb 0 20000".toList rfl
      (by decide) rfl (List.mem_cons_self _ _)⟩

/-- A raw newline in the identifier passes the regex, and the header answers it with the
escape `\n`: the peer sent `/a`, newline, `b` and gets `/a\nb` back. -/
theorem raw_newline_echoed_escaped :
    matchAdcget "$ADCGET file /a\nb 0 -1".toList =
        some ⟨"file".toList, "/a\nb".toList, "0".toList, "-1".toList⟩ ∧
      ∃ r, handleCmd anyPathEnv bobRegistry 0 "$ADCGET file /a\nb 0 -1".toList = some r ∧
        CcOut.send "$ADCSND file /a\\nb 0 20000".toList ∈ r.2 ∧
        ¬ "/a\nb ".toList <+: "/a\\nb 0 20000".toList :=
  ⟨rfl, _, rfl, List.mem_cons_self _ _, by decide⟩

end Ncdc
