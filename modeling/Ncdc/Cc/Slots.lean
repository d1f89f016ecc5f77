import Ncdc.Cc.Adcget

/-!
The upload-slot cap of the C-C sessions. `handle_adcget` starts a slot-needing transfer only
while `nmdc_cc_slots_in_use()` is below `conf_slots()`, so however requests, sent bytes,
disconnects and frees interleave, the slot transfers never outnumber the slots.
-/

namespace Ncdc

open NmdcCc

/-- The listed sessions streaming a transfer that needed a slot. -/
def slotsBusy (s : Cc) : Nat := s.list.countP fun q => (s.heap q).any CcSession.slotBusy

theorem countP_le_countP_ne_add_one {l : List Nat} (hl : l.Nodup) (f : Nat → Bool) (p : Nat) :
    l.countP f ≤ l.countP (fun q => f q && q != p) + 1 := by
  induction l with
  | nil => simp
  | cons a l ih =>
      obtain ⟨ha, hl⟩ := List.nodup_cons.1 hl
      by_cases hap : a = p
      · subst hap
        have hrest : l.countP f = l.countP (fun q => f q && q != a) :=
          List.countP_congr fun q hq => by simp [ne_of_mem_of_not_mem hq ha]
        simp only [List.countP_cons, bne_self_eq_false, Bool.and_false, hrest]
        split <;> omega
      · have := ih hl
        simp only [List.countP_cons, show (a != p) = true from bne_iff_ne.2 hap, Bool.and_true]
        split <;> omega

section Count

variable {s s' : Cc} {p : Nat} {c c' : CcSession}

theorem slotsBusy_update_le (hp : s.heap p = some c)
    (hl : s'.list = s.list) (hh : s'.heap = Function.update s.heap p (some c'))
    (hb : c'.slotBusy → c.slotBusy) :
    slotsBusy s' ≤ slotsBusy s := by
  rw [slotsBusy, slotsBusy, hl, hh]
  refine List.countP_mono_left fun q _ hq => ?_
  by_cases hqp : q = p
  · subst hqp; simpa [hp] using hb (by simpa using hq)
  · simpa [hqp] using hq

theorem slotsBusy_update_le_succ (hw : CcWf s) {n : Nat} (hn : nmdcCcSlotsInUse s = some n)
    (hl : s'.list = s.list) (hh : s'.heap = Function.update s.heap p (some c')) :
    slotsBusy s' ≤ n + 1 := by
  have hothers : (s'.list.countP fun q => (s'.heap q).any CcSession.slotBusy && q != p) ≤ n := by
    rw [nmdcCcSlotsInUse_eq s hn, hl, hh]
    refine List.countP_mono_left fun q _ hq => ?_
    simp only [Bool.and_eq_true, bne_iff_ne, ne_eq] at hq
    obtain ⟨hq, hqp⟩ := hq
    rw [Function.update_noteq hqp] at hq
    cases hs : s.heap q <;> simp_all [CcSession.slotBusy]
  calc slotsBusy s'
      ≤ (s'.list.countP fun q => (s'.heap q).any CcSession.slotBusy && q != p) + 1 :=
        countP_le_countP_ne_add_one (hl ▸ hw.nodup) _ p
    _ ≤ n + 1 := Nat.add_le_add_right hothers 1

theorem slotsBusy_create (hw : CcWf s) (hub : Option Nat) (phase : NetPhase) :
    slotsBusy (nmdcCcCreate s hub phase).1 = slotsBusy s := by
  simp only [slotsBusy, nmdcCcCreate, List.countP_cons, Function.update_same, Option.any_some,
    CcSession.new, CcSession.slotBusy, ne_eq, not_true_eq_false, decide_False,
    Bool.false_and, if_false, add_zero]
  refine List.countP_congr fun q hq => ?_
  have hne : q ≠ s.next := fun h => by simp [h, hw.listed, hw.fresh] at hq
  simp [Function.update_noteq hne]

theorem slotsBusy_drop (hw : CcWf s) (p : Nat) :
    slotsBusy { s with list := s.list.erase p, heap := Function.update s.heap p none } ≤
      slotsBusy s := by
  simp only [slotsBusy]
  calc _ = (s.list.erase p).countP fun q => (s.heap q).any CcSession.slotBusy :=
        List.countP_congr fun q hq => by
          simp [Function.update_noteq (ne_of_mem_of_not_mem hq (hw.nodup.not_mem_erase))]
    _ ≤ _ := (List.erase_sublist p s.list).countP_le _

end Count

@[simp] theorem slotBusy_disconnect (c : CcSession) (src : Nat) :
    CcSession.slotBusy { c with net := c.net.disconnect, timeoutSrc := src } = false := by
  simp [CcSession.slotBusy, Net.disconnect]

theorem slotsBusy_op {E : CcEnv} {s s' : Cc} (hw : CcWf s) (hcap : slotsBusy s ≤ E.slots)
    (hs : CcOp E s s') : slotsBusy s' ≤ E.slots := by
  cases hs with
  | create hub phase => rwa [slotsBusy_create hw]
  | connect p hp _ => exact le_trans (slotsBusy_update_le hp rfl rfl id) hcap
  | disconnect p c' hp _ _ =>
      exact le_trans (slotsBusy_update_le hp rfl rfl (by simp)) hcap
  | store p c' hp _ hb =>
      by_cases hc' : c'.slotBusy
      · rcases hb hc' with hb | ⟨n, hn, hlt⟩
        · exact le_trans (slotsBusy_update_le hp rfl rfl (fun _ => hb)) hcap
        · exact le_trans (slotsBusy_update_le_succ hw hn rfl rfl) hlt
      · exact le_trans (slotsBusy_update_le hp rfl rfl (absurd · hc')) hcap
  | clearHub p hp => exact le_trans (slotsBusy_update_le hp rfl rfl id) hcap
  | drop p => exact (slotsBusy_drop hw p).trans hcap
  | retime hl hh _ => rwa [slotsBusy, hl, hh]

theorem slotsBusy_accept {E : CcEnv} {s s' : Cc} {p : Nat} {nick : List Char}
    (hcap : slotsBusy s ≤ E.slots) (hs : CcAccept p nick s s') : slotsBusy s' ≤ E.slots := by
  cases hs with
  | mk name hp => exact le_trans (slotsBusy_update_le hp rfl rfl id) hcap

/-! ### Admission -/

section Admission

variable {E : CcEnv} {s : Cc} {p : Nat} {c : CcSession} {id path vpath : List Char}
  {needslot : Bool} {S start : Nat}

theorem handleAdcget_noSlot (bytes : Int)
    (hres : adcgetResolve E id = (some path, some vpath, needslot))
    (hstat : E.share.stat path = some (true, S)) (hstart : start ≤ S)
    (hfree : needslot = false ∨ S < 16 * 1024) :
    handleAdcget E s p c "file".toList id start bytes =
      some (adcgetSend s p c id path vpath start (adcgetLength S start bytes) S false) := by
  have hnot : ¬(needslot = true ∧ 16 * 1024 ≤ S) := by
    rcases hfree with rfl | h <;> simp [*]
  rw [handleAdcget_file E s p c bytes hres hstat, if_neg (by omega), if_neg hnot]

theorem handleAdcget_full (bytes : Int) (hres : adcgetResolve E id = (some path, some vpath, true))
    (hstat : E.share.stat path = some (true, S)) (hstart : start ≤ S) (hbig : 16 * 1024 ≤ S)
    {n : Nat} (hn : nmdcCcSlotsInUse s = some n) (hfull : E.slots ≤ n) :
    handleAdcget E s p c "file".toList id start bytes =
      some (s, [], some (1, "No Slots Available".toList)) := by
  rw [handleAdcget_file E s p c bytes hres hstat, if_neg (by omega), if_pos ⟨rfl, hbig⟩, hn,
    Option.some_bind, if_neg (by omega)]

end Admission

/-- However `$ADCGET` requests, sent bytes, disconnects, frees and timeouts interleave, no more
sessions stream a slot-needing transfer than `conf_slots()` allows. A `file` request needing no slot
is served whatever the count, and one needing a slot is refused at a full count. -/
theorem slots_never_exceeded (E : CcEnv) {s : Cc} (hs : CcReachable E s) :
    slotsBusy s ≤ E.slots ∧
      ∀ (p : Nat) (c : CcSession) (id path vpath : List Char) (needslot : Bool) (S start : Nat)
        (bytes : Int), adcgetResolve E id = (some path, some vpath, needslot) →
        E.share.stat path = some (true, S) → start ≤ S →
        ((needslot = false ∨ S < 16 * 1024) →
          handleAdcget E s p c "file".toList id start bytes =
            some (adcgetSend s p c id path vpath start (adcgetLength S start bytes) S false)) ∧
        (needslot = true → 16 * 1024 ≤ S → ∀ n, nmdcCcSlotsInUse s = some n → E.slots ≤ n →
          handleAdcget E s p c "file".toList id start bytes =
            some (s, [], some (1, "No Slots Available".toList))) :=
  ⟨(hs.holds (I := fun s => CcWf s ∧ slotsBusy s ≤ E.slots)
    ⟨.init, by simp [slotsBusy, Cc.init]⟩
    (fun _ _ h hs => ⟨h.1.op hs, slotsBusy_op h.1 h.2 hs⟩)
    (fun _ _ _ _ h hs => ⟨h.1.accept hs, slotsBusy_accept h.2 hs⟩)).2,
   fun _ _ _ _ _ _ _ _ bytes hres hstat hstart =>
    ⟨handleAdcget_noSlot bytes hres hstat hstart, fun hneed hbig _ hn hfull =>
      handleAdcget_full bytes (hneed ▸ hres) hstat hstart hbig hn hfull⟩⟩

/-- A peer of hub 0 connects, gives its nick and asks for `/a`. -/
def oneUpload : List CcEvent :=
  [.hubSet 0 ⟨[("bob".toList, "bob".toList)], some "me".toList⟩, .incoming (some 0),
    .frame 0 "$MyNick bob".toList, .frame 0 "$ADCGET file /a 0 -1".toList]

theorem one_upload_takes_the_slot :
    ∃ s, ccRun oneSlotEnv Cc.init oneUpload = some s ∧ slotsBusy s = 1 ∧
      (slotsBusy s ≤ oneSlotEnv.slots ∧
        ∀ (p : Nat) (c : CcSession) (id path vpath : List Char) (needslot : Bool) (S start : Nat)
          (bytes : Int), adcgetResolve oneSlotEnv id = (some path, some vpath, needslot) →
          oneSlotEnv.share.stat path = some (true, S) → start ≤ S →
          ((needslot = false ∨ S < 16 * 1024) →
            handleAdcget oneSlotEnv s p c "file".toList id start bytes =
              some (adcgetSend s p c id path vpath start (adcgetLength S start bytes) S false)) ∧
          (needslot = true → 16 * 1024 ≤ S → ∀ n, nmdcCcSlotsInUse s = some n →
            oneSlotEnv.slots ≤ n → handleAdcget oneSlotEnv s p c "file".toList id start bytes =
              some (s, [], some (1, "No Slots Available".toList)))) :=
  ⟨_, rfl, rfl, slots_never_exceeded oneSlotEnv (.run .init oneUpload rfl)⟩

/-- Two peers of hub 0: `bob` takes the only slot for `/a`, then `carol` gives its nick. -/
def twoPeers : List CcEvent :=
  [.hubSet 0 ⟨[("bob".toList, "bob".toList), ("carol".toList, "carol".toList)],
      some "me".toList⟩,
    .incoming (some 0), .frame 0 "$MyNick bob".toList, .frame 0 "$ADCGET file /a 0 -1".toList,
    .incoming (some 0), .frame 1 "$MyNick carol".toList]

/-- While `bob` streams, `carol` asks for `/a` from its end: the range is empty and would
stream nothing, yet `carol` gets `$MaxedOut`. -/
theorem empty_range_maxed_out :
    ∃ s, ccRun oneSlotEnv Cc.init twoPeers = some s ∧ slotsBusy s = oneSlotEnv.slots ∧
      adcgetLength 20000 20000 (-1) = 0 ∧
      ∃ r, ccStep oneSlotEnv s (.frame 1 "$ADCGET file /a 20000 -1".toList) = some r ∧
        r.2 = [.send "$MaxedOut".toList] :=
  ⟨_, rfl, rfl, rfl, _, rfl, rfl⟩

end Ncdc
