import Ncdc.Cc.Ops

/-!
`$ADCGET` from end to end: the range `handle_adcget` streams, the frames that get no answer,
and the `vpath` it frees on the "File Not Available" path. Below a size of `2 ^ 63` the C
conversions change no value, so the model compares the numbers themselves.
-/

namespace Ncdc

open NmdcCc

/-! ### The 64-bit comparisons -/

/-- The validation and clamp of `handle_adcget` on C's 64-bit types: `none` is "File Not Available",
otherwise the length it streams. -/
def adcgetClamp64 (size start bytes : BitVec 64) : Option (BitVec 64) :=
  if size.ult start then none
  else some (if bytes.slt 0 || (size - start).ult bytes then size - start else bytes)

theorem toInt_ofInt_of_range {b : Int} (h₁ : -2 ^ 63 ≤ b) (h₂ : b < 2 ^ 63) :
    (BitVec.ofInt 64 b).toInt = b := by
  rw [BitVec.toInt_ofInt]; simp only [Int.bmod]; split_ifs <;> omega

/-- On a size below `2 ^ 63`, a `guint64` start and a `gint64` byte count, the C
comparisons and the clamp compute `adcgetLength` on the numbers themselves. -/
theorem adcgetClamp64_eq {S start : Nat} {b : Int} (hS : S < 2 ^ 63) (hs : start < 2 ^ 64)
    (hb₁ : -2 ^ 63 ≤ b) (hb₂ : b < 2 ^ 63) :
    adcgetClamp64 (BitVec.ofNat 64 S) (BitVec.ofNat 64 start) (BitVec.ofInt 64 b) =
      if S < start then none else some (BitVec.ofNat 64 (adcgetLength S start b)) := by
  have hSn : (BitVec.ofNat 64 S).toNat = S := Nat.mod_eq_of_lt (by omega)
  have hsn : (BitVec.ofNat 64 start).toNat = start := Nat.mod_eq_of_lt hs
  unfold adcgetClamp64 adcgetLength
  simp only [BitVec.ult, BitVec.slt, toInt_ofInt_of_range hb₁ hb₂, hSn, hsn, decide_eq_true_eq,
    show (0 : BitVec 64).toInt = 0 from rfl]
  by_cases hst : S < start
  · rw [if_pos hst, if_pos hst]
  rw [if_neg hst, if_neg hst, Option.some.injEq]
  have hd : BitVec.ofNat 64 S - BitVec.ofNat 64 start = BitVec.ofNat 64 (S - start) := by
    apply BitVec.eq_of_toNat_eq
    rw [BitVec.toNat_sub, hSn, hsn, BitVec.toNat_ofNat]; omega
  rw [hd, show (BitVec.ofNat 64 (S - start)).toNat = S - start from Nat.mod_eq_of_lt (by omega)]
  rcases lt_or_le b 0 with hb | hb
  · simp [hb]
  · obtain ⟨n, rfl⟩ := Int.eq_ofNat_of_zero_le hb
    have hn : (BitVec.ofInt 64 n).toNat = n := by
      rw [BitVec.ofInt_natCast, BitVec.toNat_ofNat]; omega
    rw [hn, BitVec.ofInt_natCast]
    by_cases hc : S - start < n
    · rw [if_pos (by simp [hc]), if_pos (by omega)]
    · rw [if_neg (by simp [hc]), if_neg (by omega), Int.toNat_ofNat]

theorem adcgetLength_le {S start : Nat} (b : Int) (h : start ≤ S) :
    start + adcgetLength S start b ≤ S := by
  unfold adcgetLength; split_ifs with hb <;> omega

/-! ### The served range -/

section Served

variable (E : CcEnv) (s : Cc) (p : Nat) (c : CcSession)

theorem handleAdcget_file {id path vpath : List Char} {needslot : Bool} {S start : Nat}
    (bytes : Int) (hres : adcgetResolve E id = (some path, some vpath, needslot))
    (hstat : E.share.stat path = some (true, S)) :
    handleAdcget E s p c "file".toList id start bytes =
      if S < start then some (s, [], some (0, "File Not Available".toList))
      else if needslot ∧ 16 * 1024 ≤ S then
        (nmdcCcSlotsInUse s).bind fun n =>
          if n < E.slots then some (adcgetSend s p c id path vpath start
            (adcgetLength S start bytes) S true)
          else some (s, [], some (1, "No Slots Available".toList))
      else some (adcgetSend s p c id path vpath start (adcgetLength S start bytes) S false) := by
  unfold handleAdcget
  rw [if_neg (show "file".toList ≠ "tthl".toList by decide), if_neg (not_not.2 rfl)]
  simp only [hres, Option.some_bind, hstat, Option.map_some']
  rfl

/-- For a regular file of size `S < 2 ^ 63`, the C comparisons compute `adcgetLength`: the reply is
"File Not Available" exactly when `start > S`, and a served request streams that length within the
file. -/
theorem adcget_range {id path vpath : List Char} {needslot : Bool} {S start : Nat} {bytes : Int}
    (hres : adcgetResolve E id = (some path, some vpath, needslot))
    (hstat : E.share.stat path = some (true, S)) (hS : S < 2 ^ 63) (hstart : start < 2 ^ 64)
    (hb₁ : -2 ^ 63 ≤ bytes) (hb₂ : bytes < 2 ^ 63) :
    adcgetClamp64 (BitVec.ofNat 64 S) (BitVec.ofNat 64 start) (BitVec.ofInt 64 bytes) =
        (if S < start then none else some (BitVec.ofNat 64 (adcgetLength S start bytes))) ∧
      (handleAdcget E s p c "file".toList id start bytes =
        some (s, [], some (0, "File Not Available".toList)) ↔ S < start) ∧
      ∀ r, handleAdcget E s p c "file".toList id start bytes = some r → r.2.2 = none →
        start + adcgetLength S start bytes ≤ S ∧
        ∃ slot, r = adcgetSend s p c id path vpath start (adcgetLength S start bytes) S slot := by
  refine ⟨adcgetClamp64_eq hS hstart hb₁ hb₂, ?_, fun r hr hn => ?_⟩
  · rw [handleAdcget_file E s p c bytes hres hstat]
    split_ifs with hst hslot
    · simp [hst]
    · refine iff_of_false (fun h => ?_) hst
      cases hn : nmdcCcSlotsInUse s with
      | none => simp [hn] at h
      | some n =>
          simp only [hn, Option.some_bind] at h
          split_ifs at h <;> simp [adcgetSend] at h
    · exact iff_of_false (by simp [adcgetSend]) hst
  · rw [handleAdcget_file E s p c bytes hres hstat] at hr
    split_ifs at hr with hst hslot
    · cases hr; simp at hn
    · cases hsl : nmdcCcSlotsInUse s with
      | none => simp [hsl] at hr
      | some n =>
          simp only [hsl, Option.some_bind] at hr
          split_ifs at hr
          · cases hr; exact ⟨adcgetLength_le bytes (not_lt.1 hst), true, rfl⟩
          · cases hr; simp at hn
    · cases hr; exact ⟨adcgetLength_le bytes (not_lt.1 hst), false, rfl⟩

end Served

/-- A regular file of 20000 bytes, requested from the start with `-1`: the whole file. -/
theorem whole_file_served :
    adcgetClamp64 (BitVec.ofNat 64 20000) (BitVec.ofNat 64 0) (BitVec.ofInt 64 (-1)) =
      some (BitVec.ofNat 64 20000) :=
  (@adcget_range oneSlotEnv Cc.init 0 (CcSession.new none .connected) "/a".toList "/a".toList
    "/a".toList true 20000 0 (-1) rfl rfl (by norm_num) (by norm_num) (by norm_num)
    (by norm_num)).1.trans (by decide)

/-! ### Identifiers `adc_unescape` rejects -/

theorem matchAdcget_prefix {s : List Char} {a : AdcgetArgs} (h : matchAdcget s = some a) :
    ∃ r, s = "$ADCGET ".toList ++ r := by
  unfold matchAdcget at h
  cases hl : literal "$ADCGET ".toList s with
  | none => rw [hl] at h; cases h
  | some r =>
      unfold literal at hl
      split_ifs at hl with hp
      obtain ⟨t, rfl⟩ := List.isPrefixOf_iff_prefix.1 hp
      exact ⟨t, rfl⟩

theorem matchAdcget_excludes {s : List Char} {a : AdcgetArgs} (h : matchAdcget s = some a) :
    matchMyNick s = none ∧ matchLock s = none ∧ matchSupports s = none := by
  obtain ⟨r, rfl⟩ := matchAdcget_prefix h
  refine ⟨?_, ?_, ?_⟩ <;> simp [matchMyNick, matchLock, matchSupports, literal]

/-- A `$ADCGET` from a peer whose `$MyNick` was accepted, with an identifier that
`adc_unescape` rejects, only clears the session's error: nothing is sent, no error is
set and the session stays open. -/
theorem adcget_bad_escape_dropped (E : CcEnv) (s : Cc) (p : Nat) (c : CcSession)
    (cmd : List Char) (a : AdcgetArgs) (hc : s.heap p = some c) (hn : c.nick ≠ none)
    (hm : matchAdcget cmd = some a) (hu : adcUnescape a.id = none) :
    handleCmd E s p cmd = some (s.setSession p { c with err := none }, []) := by
  obtain ⟨h₁, h₂, h₃⟩ := matchAdcget_excludes hm
  simp [handleCmd, hc, runCcBranch, ccMynick, ccLock, ccSupports, ccAdcget, h₁, h₂, h₃, hm, hn,
    hu]

/-- A session whose peer `bob` has been accepted. -/
def bobSession : CcSession := { CcSession.new none .connected with nick := some "bob".toList }

/-- The registry with that one session, at pointer `0`. -/
def bobRegistry : Cc :=
  { Cc.init with
    list := [0]
    heap := fun q => if q = 0 then some bobSession else none
    next := 1 }

theorem bad_escape_unanswered :
    handleCmd oneSlotEnv bobRegistry 0 "$ADCGET file \\x 0 -1".toList =
      some (bobRegistry.setSession 0 { bobSession with err := none }, []) :=
  adcget_bad_escape_dropped oneSlotEnv bobRegistry 0 bobSession _ ⟨"file".toList, "\\x".toList,
    "0".toList, "-1".toList⟩ rfl (by decide) rfl rfl

/-! ### `vpath` -/

/-- A `file` request whose identifier resolves to no file frees the uninitialized `vpath`
on the "File Not Available" path. -/
theorem adcget_frees_unassigned_vpath (E : CcEnv) (s : Cc) (p : Nat) (c : CcSession)
    (id : List Char) (start : Nat) (bytes : Int) (hres : (adcgetResolve E id).2.1 = none) :
    handleAdcget E s p c "file".toList id start bytes = none := by
  unfold handleAdcget
  rw [if_neg (show "file".toList ≠ "tthl".toList by decide), if_neg (not_not.2 rfl)]
  rcases h : adcgetResolve E id with ⟨path, _ | vpath, needslot⟩
  · simp only [Option.map_none']
  · simp [h] at hres

theorem absent_file_frees_vpath :
    handleAdcget oneSlotEnv Cc.init 0 bobSession "file".toList "/absent".toList 0 (-1) = none :=
  adcget_frees_unassigned_vpath oneSlotEnv Cc.init 0 bobSession _ 0 (-1) rfl

end Ncdc
