import Ncdc.Cc.Ops

/-!
The nick checks of the C-C sessions. Over any interleaving of frames, disconnects, frees and
hub changes, no two connected sessions of one hub hold the same raw nick, and shared data
leaves only a session accepted before the frame that asks for it.
-/

namespace Ncdc

open NmdcCc

/-- The session holds the raw nick `nick` on the hub `hid` over a connected transport. -/
def CcSession.Holds (c : CcSession) (hid : Nat) (nick : List Char) : Prop :=
  c.net.phase = .connected ∧ c.hub = some hid ∧ c.nickRaw = some nick

/-- No two connected sessions of one hub hold the same raw nick. -/
def NicksUnique (s : Cc) : Prop :=
  ∀ q q' c c' hid nick, s.heap q = some c → s.heap q' = some c' →
    c.Holds hid nick → c'.Holds hid nick → q = q'

/-- What each record keeps: both nicks are set together, a transport still connecting has
none, and a connected session with a nick was accepted. -/
structure CcSession.NickSound (c : CcSession) : Prop where
  paired : c.nickRaw.isSome = c.nick.isSome
  connecting : c.net.phase = .connecting → c.nickRaw = none
  accepted : c.net.phase = .connected → c.nick.isSome → c.accepted

/-- The nick invariant of the registry. -/
structure NickInv (s : Cc) : Prop where
  sound : ∀ q c, s.heap q = some c → c.NickSound
  unique : NicksUnique s

/-! ### Records -/

theorem CcSession.NickSound.of_samePeer {c c' : CcSession} (h : c.NickSound)
    (hs : c.SamePeer c') : c'.NickSound where
  paired := by rw [hs.nickRaw, hs.nick]; exact h.paired
  connecting := by rw [hs.phase, hs.nickRaw]; exact h.connecting
  accepted := by rw [hs.phase, hs.nick, hs.accepted]; exact h.accepted

theorem CcSession.Holds.of_samePeer {c c' : CcSession} (hs : c.SamePeer c') {hid : Nat}
    {nick : List Char} (h : c'.Holds hid nick) : c.Holds hid nick := by
  obtain ⟨h1, h2, h3⟩ := h
  exact ⟨hs.phase ▸ h1, hs.hub ▸ h2, hs.nickRaw ▸ h3⟩

theorem CcSession.nickSound_disconnect {c c' : CcSession} (h : c.NickSound)
    (hn : c'.nickRaw = c.nickRaw ∧ c'.nick = c.nick ∨ c'.nickRaw.isSome ∧ c'.nick.isSome)
    (src : Nat) : CcSession.NickSound { c' with net := c'.net.disconnect, timeoutSrc := src } where
  paired := by
    rcases hn with ⟨h1, h2⟩ | ⟨h1, h2⟩
    · simpa [h1, h2] using h.paired
    · simp only at h1 h2 ⊢; rw [h1, h2]
  connecting := by simp [Net.disconnect]
  accepted := by simp [Net.disconnect]

/-! ### The registry -/

section Registry

variable {s s' : Cc} {p : Nat} {c c' : CcSession}

theorem NickInv.update (h : NickInv s) (hh : s'.heap = Function.update s.heap p (some c'))
    (hc' : c'.NickSound)
    (hnew : ∀ q d hid nick, q ≠ p → s.heap q = some d → c'.Holds hid nick →
      ¬d.Holds hid nick) :
    NickInv s' where
  sound q d hq := by
    rw [hh] at hq
    by_cases hqp : q = p
    · subst hqp; simp only [Function.update_same, Option.some.injEq] at hq; exact hq ▸ hc'
    · rw [Function.update_noteq hqp] at hq; exact h.sound q d hq
  unique q q' d d' hid nick hq hq' hd hd' := by
    rw [hh] at hq hq'
    by_cases h1 : q = p <;> by_cases h2 : q' = p
    · rw [h1, h2]
    · subst h1; simp only [Function.update_same, Option.some.injEq] at hq; subst hq
      rw [Function.update_noteq h2] at hq'
      exact absurd hd' (hnew q' d' hid nick h2 hq' hd)
    · subst h2; simp only [Function.update_same, Option.some.injEq] at hq'; subst hq'
      rw [Function.update_noteq h1] at hq
      exact absurd hd (hnew q d hid nick h1 hq hd')
    · rw [Function.update_noteq h1] at hq; rw [Function.update_noteq h2] at hq'
      exact h.unique q q' d d' hid nick hq hq' hd hd'

theorem NickInv.others (h : NickInv s) (hp : s.heap p = some c)
    (hh : ∀ hid nick, c'.Holds hid nick → c.Holds hid nick) :
    ∀ q d hid nick, q ≠ p → s.heap q = some d → c'.Holds hid nick → ¬d.Holds hid nick :=
  fun q d hid nick hq hd hc' hd' => hq (h.unique q p d c hid nick hd hp hd' (hh hid nick hc'))

theorem NickInv.shrink (h : NickInv s) (hh : ∀ q d, s'.heap q = some d → s.heap q = some d) :
    NickInv s' where
  sound q d hq := h.sound q d (hh q d hq)
  unique q q' d d' hid nick hq hq' := h.unique q q' d d' hid nick (hh q d hq) (hh q' d' hq')

theorem NickInv.op {E : CcEnv} (h : NickInv s) (hs : CcOp E s s') : NickInv s' := by
  cases hs with
  | create hub phase =>
      refine h.update rfl ⟨rfl, fun _ => rfl, fun _ hn => by simp [CcSession.new] at hn⟩ ?_
      rintro _ _ _ _ _ _ ⟨-, -, hn⟩; simp [CcSession.new] at hn
  | @connect c p hp hph =>
      have hs := h.sound p _ hp
      have hraw := hs.connecting hph
      have hnick : c.nick = none := by simpa [hraw] using hs.paired.symm
      refine h.update rfl ⟨hs.paired, by simp, by simp [hnick]⟩ ?_
      rintro _ _ _ _ _ _ ⟨-, -, hn⟩; simp [hraw] at hn
  | disconnect p c' hp _ hn =>
      refine h.update rfl (CcSession.nickSound_disconnect (h.sound p _ hp) hn _) ?_
      rintro _ _ _ _ _ _ ⟨hph, -⟩; simp [Net.disconnect] at hph
  | store p c' hp hsame _ =>
      exact h.update rfl ((h.sound p _ hp).of_samePeer hsame)
        (h.others hp fun _ _ => CcSession.Holds.of_samePeer hsame)
  | clearHub p hp =>
      refine h.update rfl ?_ ?_
      · have hs := h.sound p _ hp; exact ⟨hs.paired, hs.connecting, hs.accepted⟩
      · rintro _ _ _ _ _ _ ⟨-, hh, -⟩; simp at hh
  | drop p =>
      refine h.shrink fun q d hq => ?_
      by_cases hqp : q = p
      · subst hqp; simp at hq
      · simpa [hqp] using hq
  | retime _ hh _ => exact h.shrink fun q d hq => hh ▸ hq

theorem NickInv.accept {nick : List Char} (hw : CcWf s) (h : NickInv s)
    (hs : CcAccept p nick s s') : NickInv s' := by
  cases hs with
  | mk name hp hph hnn hhub _ _ hg =>
      refine h.update rfl ⟨by simp, by simp [hph], by simp⟩ ?_
      rintro q d hid' nick' hq hd ⟨-, hh', hn'⟩ ⟨hdph, hdh, hdn⟩
      simp only [Option.some.injEq] at hh' hn'
      rw [hhub, Option.some.injEq] at hh'
      subst hh' hn'
      exact nmdcCcGetConn_none s hg q ((hw.listed q).2 (by simp [hd])) d hd
        ⟨hdn, hdh.trans hhub.symm, hdph⟩

end Registry

theorem CcReachable.nickInv {E : CcEnv} {s : Cc} (hs : CcReachable E s) :
    CcWf s ∧ NickInv s :=
  hs.holds (I := fun s => CcWf s ∧ NickInv s)
    ⟨.init, fun _ _ h => by simp [Cc.init] at h, fun _ _ _ _ _ _ h => by simp [Cc.init] at h⟩
    (fun _ _ h hs => ⟨h.1.op hs, h.2.op hs⟩)
    (fun _ _ _ _ h hs => ⟨h.1.accept hs, h.2.accept h.1 hs⟩)

theorem CcMoves.nickInv {E : CcEnv} {s s' : Cc} (hm : CcMoves E s s') (h : CcWf s ∧ NickInv s) :
    CcWf s' ∧ NickInv s' :=
  hm.holds (I := fun s => CcWf s ∧ NickInv s)
    (fun _ _ h hs => ⟨h.1.op hs, h.2.op hs⟩)
    (fun _ _ _ _ h hs => ⟨h.1.accept hs, h.2.accept h.1 hs⟩) h

/-! ### Acceptance -/

section Acceptance

variable {E : CcEnv} {s s' : Cc}

theorem accepted_of_update {q : Nat} {d : CcSession} (hq : s'.heap q = some d)
    (hd : d.accepted) {p : Nat} {c c' : CcSession} (hp : s.heap p = some c)
    (hh : s'.heap = Function.update s.heap p (some c')) (ha : c'.accepted = c.accepted) :
    ∃ d₀, s.heap q = some d₀ ∧ d₀.accepted := by
  rw [hh] at hq
  by_cases hqp : q = p
  · subst hqp; simp only [Function.update_same, Option.some.injEq] at hq; subst hq
    exact ⟨c, hp, ha ▸ hd⟩
  · rw [Function.update_noteq hqp] at hq; exact ⟨d, hq, hd⟩

theorem CcOp.accepted_of (hs : CcOp E s s') {q : Nat} {d : CcSession}
    (hq : s'.heap q = some d) (hd : d.accepted) :
    ∃ d₀, s.heap q = some d₀ ∧ d₀.accepted := by
  cases hs with
  | create hub phase =>
      by_cases hqn : q = s.next
      · subst hqn; simp [nmdcCcCreate, CcSession.new] at hq; simp [← hq] at hd
      · exact ⟨d, by simpa [nmdcCcCreate, hqn] using hq, hd⟩
  | connect p hp _ => exact accepted_of_update hq hd hp rfl rfl
  | disconnect p c' hp ha _ => exact accepted_of_update hq hd hp rfl ha
  | store p c' hp hsame _ => exact accepted_of_update hq hd hp rfl hsame.accepted
  | clearHub p hp => exact accepted_of_update hq hd hp rfl rfl
  | drop p =>
      by_cases hqp : q = p
      · subst hqp; simp at hq
      · exact ⟨d, by simpa [hqp] using hq, hd⟩
  | retime _ hh _ => exact ⟨d, hh ▸ hq, hd⟩

theorem CcOps.accepted_of (hs : CcOps E s s') {q : Nat} {d : CcSession}
    (hq : s'.heap q = some d) (hd : d.accepted) :
    ∃ d₀, s.heap q = some d₀ ∧ d₀.accepted := by
  induction hs generalizing d with
  | refl => exact ⟨d, hq, hd⟩
  | tail _ hop ih =>
      obtain ⟨d₁, hq₁, hd₁⟩ := hop.accepted_of hq hd
      exact ih hq₁ hd₁

theorem CcAccept.inv {p : Nat} {nick : List Char} (h : CcAccept p nick s s') :
    ∃ c hid hub name, s.heap p = some c ∧ c.hub = some hid ∧ s.hubs hid = some hub ∧
      hub.users.lookup nick = some name ∧ nmdcCcGetConn s c.hub nick = some none ∧
      s' = s.setSession p { c with nickRaw := some nick, nick := some name, accepted := true } := by
  cases h with
  | mk name hp _ _ hhub hh hl hg => exact ⟨_, _, _, name, hp, hhub, hh, hl, hg, rfl⟩

theorem matchMyNick_of_matchAdcget {cmd : List Char} (h : (matchAdcget cmd).isSome) :
    matchMyNick cmd = none := by
  obtain ⟨t, rfl⟩ := eq_append_of_literal_bind h
  rfl

theorem ccStep_payload_accepted (hinv : CcWf s ∧ NickInv s) {e : CcEvent}
    {out : List CcOut} (he : ccStep E s e = some (s', out)) (hpay : ∃ o ∈ out, o.payload) :
    ∃ p cmd c, e = .frame p cmd ∧ s.heap p = some c ∧ c.accepted := by
  obtain ⟨o, ho, hpay⟩ := hpay
  rcases ccStep_cases he with ⟨-, hq⟩ | ⟨p, cmd, c₀, rfl, hp₀, hph, h⟩
  · simp [hq o ho] at hpay
  obtain ⟨c, x₁, x₂, x₃, x₄, hp, hx₁, hx₂, hx₃, hx₄, ⟨⟩⟩ :=
    handleCmd_eq_some h
  obtain rfl : c = c₀ := Option.some.inj (hp.symm.trans hp₀)
  have hmy₁ := ccMynick_moves (E := E) (clearErr_connected hph) hx₁
  have ho₄ : o ∈ x₄.2 := by
    simp only [List.mem_append] at ho
    rcases ho with ((ho | ho) | ho) | ho
    · simp [hmy₁.1] at ho
    · simp [ccLock_quiet hx₂ o ho] at hpay
    · simp [ccSupports_quiet hx₃] at ho
    · exact ho
  obtain ⟨hadc, c₃, hp₃, hph₃, hn₃⟩ := ccAdcget_payload hx₄ ho₄ hpay
  have hmy : CcOps E (s.setSession p { c with err := none }) x₁.1 := by
    rcases hmy₁.2 with h₁ | ⟨nick, hn, -⟩
    · exact h₁
    · simp [matchMyNick_of_matchAdcget hadc] at hn
  have hto₃ : CcOps E s x₃.1 :=
    .head (clearErr_op hp) (hmy.trans ((ccLock_ops hx₂).trans (ccSupports_ops hx₃)))
  have hacc₃ := ((hto₃.moves.nickInv hinv).2.sound p c₃ hp₃).accepted hph₃ hn₃
  obtain ⟨c₀, hp₀, hacc₀⟩ := hto₃.accepted_of hp₃ hacc₃
  exact ⟨p, cmd, c₀, rfl, hp₀, hacc₀⟩

theorem ccStep_accepted (hinv : CcWf s ∧ NickInv s) {e : CcEvent} {out : List CcOut}
    {q : Nat} {c' : CcSession} (he : ccStep E s e = some (s', out)) (hq : s'.heap q = some c')
    (hacc : c'.accepted) :
    (∃ c, s.heap q = some c ∧ c.accepted) ∨
      ∃ cmd nick c hid hub name, e = .frame q cmd ∧ matchMyNick cmd = some nick ∧
        s.heap q = some c ∧ c.hub = some hid ∧ s.hubs hid = some hub ∧
        hub.users.lookup nick = some name ∧
        ∀ q' d, q' ≠ q → s.heap q' = some d → ¬d.Holds hid nick := by
  rcases ccStep_cases he with ⟨hops, -⟩ | ⟨p, cmd, c₀, rfl, hp₀, hph, h⟩
  · exact .inl (hops.accepted_of hq hacc)
  obtain ⟨c, x₁, x₂, x₃, x₄, hp, hx₁, hx₂, hx₃, hx₄, ⟨⟩⟩ :=
    handleCmd_eq_some h
  obtain rfl : c = c₀ := Option.some.inj (hp.symm.trans hp₀)
  obtain ⟨d₁, hq₁, hd₁⟩ := (ccRest_ops hx₂ hx₃ hx₄).accepted_of hq hacc
  rcases (ccMynick_moves (E := E) (clearErr_connected hph) hx₁).2 with h₁ | ⟨nick, hn, ha⟩
  · exact .inl (CcOps.accepted_of (.head (clearErr_op hp) h₁) hq₁ hd₁)
  obtain ⟨c₁, hid, hub, name, hp₁, hhub, hh, hl, hg, hx⟩ := ha.inv
  by_cases hqp : q = p
  · subst hqp
    simp only [Cc.setSession_heap_self, Option.some.injEq] at hp₁
    subst hp₁
    refine .inr ⟨cmd, nick, c, hid, hub, name, rfl, hn, hp, hhub, hh, hl, ?_⟩
    rintro q' d hq' hd ⟨hdph, hdh, hdn⟩
    have hd₀ : (s.setSession q { c with err := none }).heap q' = some d := by
      rw [Cc.setSession_heap_ne _ _ hq', hd]
    exact nmdcCcGetConn_none _ hg q' ((hinv.1.listed q').2 (by simp [hd])) d hd₀
      ⟨hdn, hdh.trans hhub.symm, hdph⟩
  · rw [hx, Cc.setSession_heap_ne _ _ hqp, Cc.setSession_heap_ne _ _ hqp] at hq₁
    exact .inl ⟨d₁, hq₁, hd₁⟩

end Acceptance

/-- However the events of any number of sessions interleave, no two connected sessions of one hub
hold the same raw nick, and a session is accepted only by a `$MyNick` of its hub's roster that no
other holds. Shared data leaves only a session accepted before the frame. -/
theorem nick_checks_hold (E : CcEnv) {s : Cc} (hs : CcReachable E s) :
    NicksUnique s ∧
    (∀ e s' out, ccStep E s e = some (s', out) → (∃ o ∈ out, o.payload) →
      ∃ p cmd c, e = .frame p cmd ∧ s.heap p = some c ∧ c.accepted) ∧
    (∀ e s' out q c', ccStep E s e = some (s', out) → s'.heap q = some c' → c'.accepted →
      (∃ c, s.heap q = some c ∧ c.accepted) ∨
      ∃ cmd nick c hid hub name, e = .frame q cmd ∧ matchMyNick cmd = some nick ∧
        s.heap q = some c ∧ c.hub = some hid ∧ s.hubs hid = some hub ∧
        hub.users.lookup nick = some name ∧
        ∀ q' d, q' ≠ q → s.heap q' = some d → ¬d.Holds hid nick) :=
  ⟨hs.nickInv.2.unique, fun _ _ _ he hpay => ccStep_payload_accepted hs.nickInv he hpay,
    fun _ _ _ _ _ he hq hacc => ccStep_accepted hs.nickInv he hq hacc⟩

/-- Two peers of hub 0 connect and both claim the nick `bob`. -/
def twoBobs : List CcEvent :=
  [.hubSet 0 ⟨[("bob".toList, "bob".toList)], some "me".toList⟩, .incoming (some 0),
    .incoming (some 0), .frame 0 "$MyNick bob".toList, .frame 1 "$MyNick bob".toList]

/-- The second `bob` is disconnected, and the nicks stay unique. -/
theorem second_bob_refused :
    ∃ s, ccRun oneSlotEnv Cc.init twoBobs = some s ∧
      (s.heap 1).map (·.net.phase) = some .closed ∧ NicksUnique s :=
  ⟨_, rfl, rfl, (nick_checks_hold oneSlotEnv (.run .init twoBobs rfl)).1⟩

end Ncdc
