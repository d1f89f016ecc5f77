import Ncdc.Cc.Session

/-!
What one event can do to the C-C registry. Every handler of `nmdc_cc.c` is a chain of the
operations `CcOp` and the acceptance `CcAccept` (`ccStep_moves`), so an invariant of the
registry needs one lemma per operation.
-/

namespace Ncdc

open NmdcCc

/-! ### Session records -/

/-- The session streams a transfer that needed a slot. -/
def CcSession.slotBusy (c : CcSession) : Bool := c.net.fileLeft ≠ 0 && c.net.slot

/-- Two records of one session with the same transport phase, hub, nicks and acceptance:
what a store that touches only the transfer or the error keeps. -/
structure CcSession.SamePeer (c c' : CcSession) : Prop where
  phase : c'.net.phase = c.net.phase
  hub : c'.hub = c.hub
  nickRaw : c'.nickRaw = c.nickRaw
  nick : c'.nick = c.nick
  accepted : c'.accepted = c.accepted

@[simp] theorem Net.sendfile_phase (n : Net) (bytes : Nat) (slot : Bool) :
    (n.sendfile bytes slot).phase = n.phase := by
  unfold Net.sendfile; split <;> rfl

theorem Net.sendfile_slot_le {n : Net} {bytes : Nat} {slot : Bool}
    (h : (n.sendfile bytes slot).slot = true) : slot = true ∨ n.slot = true := by
  unfold Net.sendfile at h; split at h <;> simp_all

/-! ### The registry's operations -/

/-- The operations of the registry that accept no peer. -/
inductive CcOp (E : CcEnv) : Cc → Cc → Prop
  /-- `nmdc_cc_create`, for a dialled or an accepted socket. -/
  | create {s : Cc} (hub : Option Nat) (phase : NetPhase) :
      CcOp E s (nmdcCcCreate s hub phase).1
  /-- A dialled transport connects. -/
  | connect {s : Cc} {c : CcSession} (p : Nat) :
      s.heap p = some c → c.net.phase = .connecting →
      CcOp E s (s.setSession p { c with net := { c.net with phase := .connected } })
  /-- `nmdc_cc_disconnect`, with a record that keeps the acceptance and either keeps both
  nicks or has both set. -/
  | disconnect {s : Cc} {c : CcSession} (p : Nat) (c' : CcSession) :
      s.heap p = some c → c'.accepted = c.accepted →
      c'.nickRaw = c.nickRaw ∧ c'.nick = c.nick ∨ c'.nickRaw.isSome ∧ c'.nick.isSome →
      CcOp E s (nmdcCcDisconnect s p c')
  /-- A store that keeps the peer, and starts a transfer needing a slot only when
  `nmdc_cc_slots_in_use()` was below `conf_slots()`. -/
  | store {s : Cc} {c : CcSession} (p : Nat) (c' : CcSession) :
      s.heap p = some c → c.SamePeer c' →
      (c'.slotBusy → c.slotBusy ∨ ∃ n, nmdcCcSlotsInUse s = some n ∧ n < E.slots) →
      CcOp E s (s.setSession p c')
  /-- `nmdc_cc_remove_hub` on one session. -/
  | clearHub {s : Cc} {c : CcSession} (p : Nat) :
      s.heap p = some c → CcOp E s (s.setSession p { c with hub := none })
  /-- The end of `nmdc_cc_free`: unlink and free. -/
  | drop {s : Cc} (p : Nat) :
      CcOp E s { s with list := s.list.erase p, heap := Function.update s.heap p none }
  /-- Only the timeouts or the hubs change. -/
  | retime {s s' : Cc} : s'.list = s.list → s'.heap = s.heap → s'.next = s.next → CcOp E s s'

/-- `handle_mynick` accepting the peer `nick` on the connected session `p`: the nick is in
the roster of the session's hub, and no connected session of that hub holds it. -/
inductive CcAccept (p : Nat) (nick : List Char) : Cc → Cc → Prop
  | mk {s : Cc} {c : CcSession} {hid : Nat} {hub : CcHub} (name : List Char) :
      s.heap p = some c → c.net.phase = .connected → c.nick = none → c.hub = some hid →
      s.hubs hid = some hub → hub.users.lookup nick = some name →
      nmdcCcGetConn s c.hub nick = some none →
      CcAccept p nick s (s.setSession p { c with nickRaw := some nick, nick := some name,
                                                 accepted := true })

/-- One operation of either kind. -/
def CcMove (E : CcEnv) (s s' : Cc) : Prop := CcOp E s s' ∨ ∃ p nick, CcAccept p nick s s'

/-- Chains of operations that accept no peer. -/
abbrev CcOps (E : CcEnv) := Relation.ReflTransGen (CcOp E)

/-- Chains of operations. -/
abbrev CcMoves (E : CcEnv) := Relation.ReflTransGen (CcMove E)

theorem CcOps.moves {E : CcEnv} {s s' : Cc} (h : CcOps E s s') : CcMoves E s s' :=
  h.mono fun _ _ => Or.inl

/-! ### The registry's queries -/

section Queries

variable (s : Cc)

theorem nmdcCcSlotsInUse_eq {n : Nat} (h : nmdcCcSlotsInUse s = some n) :
    n = s.list.countP fun q => (s.heap q).any (·.net.fileLeft ≠ 0) := by
  unfold nmdcCcSlotsInUse at h
  generalize s.list = l at h ⊢
  induction l generalizing n with
  | nil => simpa using h.symm
  | cons q l ih =>
      simp only [List.foldr_cons, Option.bind_eq_bind, Option.bind_eq_some,
        Option.some.injEq] at h
      obtain ⟨c, hq, m, hm, rfl⟩ := h
      rw [ih hm, List.countP_cons, hq]
      by_cases h0 : c.net.fileLeft = 0 <;> simp [h0]

theorem nmdcCcGetConn_none {hub : Option Nat} {user : List Char}
    (h : nmdcCcGetConn s hub user = some none) :
    ∀ q ∈ s.list, ∀ c, s.heap q = some c →
      ¬(c.nickRaw = some user ∧ c.hub = hub ∧ c.net.phase = .connected) := by
  unfold nmdcCcGetConn at h
  generalize s.list = l at h ⊢
  induction l with
  | nil => simp
  | cons q l ih =>
      simp only [List.foldr_cons, Option.bind_eq_bind, Option.bind_eq_some] at h
      obtain ⟨c, hq, h⟩ := h
      split at h
      · cases h
      · rintro q' (_ | ⟨_, hq'⟩) c' hc'
        · simp_all
        · exact ih h q' hq' c' hc'

end Queries

/-! ### Each handler as operations -/

section Handlers

variable {E : CcEnv} {s s' : Cc} {p : Nat}

theorem nmdcCcDisconnect_op {c : CcSession} (hp : s.heap p = some c) (m : Option (List Char)) :
    CcOp E s (nmdcCcDisconnect s p { c with err := m }) :=
  .disconnect p _ hp rfl (.inl ⟨rfl, rfl⟩)

theorem nmdcCcFree_ops (h : nmdcCcFree s p = some s') : CcOps E s s' := by
  simp only [nmdcCcFree, Option.bind_eq_bind, Option.bind_eq_some, Option.some.injEq] at h
  obtain ⟨c, hp, rfl⟩ := h
  exact .tail (.single (nmdcCcDisconnect_op hp c.err)) (.drop p)

theorem handleTimeout_ops {src : Nat} (h : handleTimeout s src p = some s') :
    CcOps E s s' := by
  refine .head ?_ (nmdcCcFree_ops h)
  exact .retime rfl rfl rfl

theorem nmdcCcRemoveHub_ops {hid : Nat} (h : nmdcCcRemoveHub s hid = some s') :
    CcOps E s s' := by
  unfold nmdcCcRemoveHub at h
  generalize s.list = l at h
  induction l generalizing s with
  | nil => cases h; exact .refl
  | cons q l ih =>
      simp only [List.foldlM_cons, Option.bind_eq_bind, Option.bind_eq_some] at h
      obtain ⟨t, ⟨c, hq, ht⟩, h⟩ := h
      cases ht
      refine .head ?_ (ih h)
      split
      · exact .clearHub q hq
      · exact .retime rfl rfl rfl

theorem handleError_op {msg : List Char} (h : handleError s p msg = some s') :
    CcOp E s s' := by
  simp only [handleError, Option.bind_eq_bind, Option.bind_eq_some, Option.some.injEq] at h
  obtain ⟨c, hp, rfl⟩ := h
  exact nmdcCcDisconnect_op hp _

theorem handleConnect_ops {out : List CcOut} (h : handleConnect E s p = some (s', out)) :
    CcOps E s s' := by
  simp only [handleConnect, Option.bind_eq_bind, Option.bind_eq_some] at h
  obtain ⟨c, hp, h⟩ := h
  split at h
  · cases h; exact .single (nmdcCcDisconnect_op hp c.err)
  · simp only [Option.bind_eq_some, Option.some.injEq, Prod.mk.injEq] at h
    obtain ⟨_, -, rfl, -⟩ := h
    exact .refl

theorem adcgetSend_op {c : CcSession} (hp : s.heap p = some c)
    {id path vpath : List Char} {start bytes size : Nat} {slot : Bool}
    (hs : slot → ∃ n, nmdcCcSlotsInUse s = some n ∧ n < E.slots) :
    CcOp E s (adcgetSend s p c id path vpath start bytes size slot).1 := by
  refine .store p _ hp ⟨Net.sendfile_phase .., rfl, rfl, rfl, rfl⟩ fun hb => ?_
  simp only [CcSession.slotBusy, Bool.and_eq_true, decide_eq_true_eq] at hb
  rcases Net.sendfile_slot_le hb.2 with h | h
  · exact .inr (hs h)
  · unfold Net.sendfile at hb
    split at hb
    · simp_all
    · exact .inl (by simp [CcSession.slotBusy, hb.1, h])

@[simp] theorem adcgetTthl_fst {c : CcSession} {id : List Char} {start : Nat} {bytes : Int} :
    (adcgetTthl E s c id start bytes).1 = s := by
  unfold adcgetTthl; split_ifs <;> [split <;> rfl; rfl]

theorem handleAdcget_cases {c : CcSession} {type id : List Char} {start : Nat} {bytes : Int}
    {r : AdcgetResult} (h : handleAdcget E s p c type id start bytes = some r) :
    r = adcgetTthl E s c id start bytes ∨ (r.1 = s ∧ r.2.1 = []) ∨
      ∃ path vpath len size, ∃ slot : Bool, (slot → ∃ n, nmdcCcSlotsInUse s = some n ∧ n < E.slots) ∧
        r = adcgetSend s p c id path vpath start len size slot := by
  unfold handleAdcget at h
  split_ifs at h
  · exact .inl (Option.some.inj h).symm
  · cases h; exact .inr (.inl ⟨rfl, rfl⟩)
  obtain ⟨path, vpath, needslot⟩ := adcgetResolve E id
  dsimp only at h
  refine .inr ?_
  split at h
  · split_ifs at h
    · obtain ⟨_, -, rfl⟩ := Option.map_eq_some'.1 h; exact .inl ⟨rfl, rfl⟩
    · obtain ⟨n, hn, h⟩ := Option.bind_eq_some.1 h
      split_ifs at h with hlt
      · cases h; exact .inr ⟨_, _, _, _, true, fun _ => ⟨n, hn, hlt⟩, rfl⟩
      · cases h; exact .inl ⟨rfl, rfl⟩
    · cases h; exact .inr ⟨_, _, _, _, false, fun h => absurd h (by simp), rfl⟩
  · obtain ⟨_, -, rfl⟩ := Option.map_eq_some'.1 h; exact .inl ⟨rfl, rfl⟩

theorem handleAdcget_ops {c : CcSession} (hp : s.heap p = some c)
    {type id : List Char} {start : Nat} {bytes : Int} {r : AdcgetResult}
    (h : handleAdcget E s p c type id start bytes = some r) : CcOps E s r.1 := by
  rcases handleAdcget_cases h with rfl | ⟨h, -⟩ | ⟨_, _, _, _, _, hslot, rfl⟩
  · rw [adcgetTthl_fst]
  · rw [h]
  · exact .single (adcgetSend_op hp hslot)

theorem handleMynick_moves {nick : List Char}
    (hc : ∀ c, s.heap p = some c → c.net.phase = .connected)
    (h : handleMynick s p nick = some s') : CcOps E s s' ∨ CcAccept p nick s s' := by
  simp only [handleMynick, Option.bind_eq_bind, Option.bind_eq_some] at h
  obtain ⟨c, hp, h⟩ := h
  split at h
  · cases h; exact .inl .refl
  split at h
  · cases h; exact .inl (.single (nmdcCcDisconnect_op hp c.err))
  rename_i hid hhub
  simp only [Option.bind_eq_some] at h
  obtain ⟨hub, hh, h⟩ := h
  split at h
  · cases h; exact .inl (.single (nmdcCcDisconnect_op hp _))
  rename_i name hname
  obtain ⟨dup, hdup, h⟩ := Option.bind_eq_some.1 h
  split at h
  · cases h; exact .inl (.single (.disconnect p _ hp rfl (.inr ⟨rfl, rfl⟩)))
  · cases h
    exact .inr (.mk name hp (hc c hp) (Option.not_isSome_iff_eq_none.1 ‹_›) hhub hh hname
      (hhub ▸ hdup))

theorem ccMynick_moves {cmd : List Char} {r : Cc × List CcOut}
    (hc : ∀ c, s.heap p = some c → c.net.phase = .connected)
    (h : ccMynick p cmd s = some r) :
    r.2 = [] ∧
      (CcOps E s r.1 ∨ ∃ nick, matchMyNick cmd = some nick ∧ CcAccept p nick s r.1) := by
  unfold ccMynick at h
  split at h
  · cases h; exact ⟨rfl, .inl .refl⟩
  · rename_i nick hnick
    obtain ⟨s', hs', rfl⟩ := Option.map_eq_some'.1 h
    exact ⟨rfl, (handleMynick_moves hc hs').imp_right fun ha => ⟨nick, hnick, ha⟩⟩

theorem ccLock_ops {cmd : List Char} {r : Cc × List CcOut} (h : ccLock E p cmd s = some r) :
    CcOps E s r.1 := by
  unfold ccLock at h
  split at h
  · cases h; exact .refl
  · obtain ⟨c, hp, h⟩ := Option.bind_eq_some.1 h
    split at h <;> cases h
    · exact .refl
    · exact .single (nmdcCcDisconnect_op hp _)

theorem ccSupports_ops {cmd : List Char} {r : Cc × List CcOut}
    (h : ccSupports p cmd s = some r) : CcOps E s r.1 := by
  unfold ccSupports at h
  split at h
  · cases h; exact .refl
  · obtain ⟨c, hp, h⟩ := Option.bind_eq_some.1 h
    split at h <;> cases h
    · exact .refl
    · exact .single (nmdcCcDisconnect_op hp _)

theorem ccAdcget_ops {cmd : List Char} {r : Cc × List CcOut}
    (h : ccAdcget E p cmd s = some r) : CcOps E s r.1 := by
  unfold ccAdcget at h
  split at h
  · cases h; exact .refl
  obtain ⟨c, hp, h⟩ := Option.bind_eq_some.1 h
  split at h
  · cases h; exact .single (nmdcCcDisconnect_op hp _)
  split at h
  · cases h; exact .refl
  obtain ⟨⟨s₁, out, err⟩, h₁, h⟩ := Option.bind_eq_some.1 h
  have hs₁ := handleAdcget_ops hp h₁
  dsimp only at h
  split at h
  · cases h; exact hs₁
  · obtain ⟨c₁, hp₁, h⟩ := Option.bind_eq_some.1 h
    cases h
    exact hs₁.tail (.store p _ hp₁ ⟨rfl, rfl, rfl, rfl, rfl⟩ .inl)

theorem runCcBranch_eq_some {r r' : Cc × List CcOut} {b : CcBranch}
    (h : runCcBranch r b = some r') : ∃ x, b r.1 = some x ∧ r' = (x.1, r.2 ++ x.2) := by
  obtain ⟨x, hx, rfl⟩ := Option.map_eq_some'.1 h
  exact ⟨x, hx, rfl⟩

theorem handleCmd_eq_some {cmd : List Char} {r : Cc × List CcOut}
    (h : handleCmd E s p cmd = some r) :
    ∃ c x₁ x₂ x₃ x₄, s.heap p = some c ∧
      ccMynick p cmd (s.setSession p { c with err := none }) = some x₁ ∧
      ccLock E p cmd x₁.1 = some x₂ ∧ ccSupports p cmd x₂.1 = some x₃ ∧
      ccAdcget E p cmd x₃.1 = some x₄ ∧
      r = (x₄.1, x₁.2 ++ x₂.2 ++ x₃.2 ++ x₄.2) := by
  obtain ⟨c, hp, h⟩ := Option.bind_eq_some.1 h
  simp only [List.foldlM_cons, List.foldlM_nil, Option.bind_eq_bind, Option.bind_eq_some] at h
  obtain ⟨r₁, h₁, r₂, h₂, r₃, h₃, r₄, h₄, h₅⟩ := h
  obtain ⟨x₁, hx₁, rfl⟩ := runCcBranch_eq_some h₁
  obtain ⟨x₂, hx₂, rfl⟩ := runCcBranch_eq_some h₂
  obtain ⟨x₃, hx₃, rfl⟩ := runCcBranch_eq_some h₃
  obtain ⟨x₄, hx₄, rfl⟩ := runCcBranch_eq_some h₄
  cases h₅
  exact ⟨c, x₁, x₂, x₃, x₄, hp, hx₁, hx₂, hx₃, hx₄, by simp⟩

theorem clearErr_op {c : CcSession} (hp : s.heap p = some c) :
    CcOp E s (s.setSession p { c with err := none }) :=
  .store p _ hp ⟨rfl, rfl, rfl, rfl, rfl⟩ .inl

theorem ccRest_ops {cmd : List Char} {x₁ x₂ x₃ x₄ : Cc × List CcOut}
    (h₂ : ccLock E p cmd x₁.1 = some x₂) (h₃ : ccSupports p cmd x₂.1 = some x₃)
    (h₄ : ccAdcget E p cmd x₃.1 = some x₄) : CcOps E x₁.1 x₄.1 :=
  (ccLock_ops h₂).trans ((ccSupports_ops h₃).trans (ccAdcget_ops h₄))

theorem clearErr_connected {c : CcSession} (hc : c.net.phase = .connected) :
    ∀ c', (s.setSession p { c with err := none }).heap p = some c' →
      c'.net.phase = .connected := by
  simp only [Cc.setSession_heap_self, Option.some.injEq]
  rintro _ rfl; exact hc

theorem handleCmd_moves {cmd : List Char} {r : Cc × List CcOut}
    (hc : ∀ c, s.heap p = some c → c.net.phase = .connected)
    (h : handleCmd E s p cmd = some r) : CcMoves E s r.1 := by
  obtain ⟨c, x₁, x₂, x₃, x₄, hp, hx₁, hx₂, hx₃, hx₄, rfl⟩ := handleCmd_eq_some h
  dsimp only
  have hmy : CcMoves E (s.setSession p { c with err := none }) x₁.1 := by
    rcases (ccMynick_moves (E := E) (clearErr_connected (hc c hp)) hx₁).2 with
      h₁ | ⟨nick, -, ha⟩
    · exact h₁.moves
    · exact .single (.inr ⟨p, nick, ha⟩)
  exact .head (.inl (clearErr_op hp)) <| hmy.trans (CcOps.moves (ccRest_ops hx₂ hx₃ hx₄))

/-! ### What is sent -/

/-- What carries shared data: an `$ADCSND` header, a hash-tree blob or file bytes. -/
def CcOut.payload : CcOut → Bool
  | .send frame => "$ADCSND".toList.isPrefixOf frame
  | .sendRaw _ => true
  | .sendfile .. => true

theorem mem_netSend {c : CcSession} {x o : CcOut} (h : o ∈ netSend c x) :
    c.net.phase = .connected ∧ o = x := by
  unfold netSend at h; split at h <;> simp_all

theorem handleConnect_quiet {out : List CcOut} (h : handleConnect E s p = some (s', out)) :
    ∀ o ∈ out, o.payload = false := by
  simp only [handleConnect, Option.bind_eq_bind, Option.bind_eq_some] at h
  obtain ⟨c, -, h⟩ := h
  split at h
  · cases h; simp
  · obtain ⟨_, -, ⟨⟩⟩ := Option.bind_eq_some.1 h
    intro o ho
    rcases List.mem_append.1 ho with ho | ho <;> obtain ⟨-, rfl⟩ := mem_netSend ho <;> rfl

theorem ccLock_quiet {cmd : List Char} {r : Cc × List CcOut} (h : ccLock E p cmd s = some r) :
    ∀ o ∈ r.2, o.payload = false := by
  unfold ccLock at h
  split at h
  · cases h; simp
  · obtain ⟨c, -, h⟩ := Option.bind_eq_some.1 h
    split at h <;> cases h
    · intro o ho
      simp only [List.mem_append] at ho
      rcases ho with (ho | ho) | ho <;> obtain ⟨-, rfl⟩ := mem_netSend ho <;> rfl
    · simp

theorem ccSupports_quiet {cmd : List Char} {r : Cc × List CcOut}
    (h : ccSupports p cmd s = some r) : r.2 = [] := by
  unfold ccSupports at h
  split at h
  · cases h; rfl
  · obtain ⟨c, -, h⟩ := Option.bind_eq_some.1 h
    split at h <;> cases h <;> rfl

theorem mem_netSend_append {c : CcSession} {x y o : CcOut}
    (h : o ∈ netSend c x ++ netSend c y) : c.net.phase = .connected := by
  rcases List.mem_append.1 h with h | h <;> exact (mem_netSend h).1

theorem handleAdcget_sent {c : CcSession} {type id : List Char} {start : Nat} {bytes : Int}
    {r : AdcgetResult} (h : handleAdcget E s p c type id start bytes = some r) :
    ∀ o ∈ r.2.1, c.net.phase = .connected := by
  rcases handleAdcget_cases h with rfl | ⟨-, h⟩ | ⟨_, _, _, _, _, -, rfl⟩
  · unfold adcgetTthl; split_ifs
    · split
      · simp
      · exact fun o ho => mem_netSend_append ho
    · simp
  · simp [h]
  · exact fun o ho => mem_netSend_append ho

theorem ccAdcget_payload {cmd : List Char} {r : Cc × List CcOut}
    (h : ccAdcget E p cmd s = some r) {o : CcOut} (ho : o ∈ r.2) (hpay : o.payload) :
    (matchAdcget cmd).isSome ∧
      ∃ c, s.heap p = some c ∧ c.net.phase = .connected ∧ c.nick.isSome := by
  unfold ccAdcget at h
  split at h
  · cases h; simp at ho
  rename_i a ha
  obtain ⟨c, hp, h⟩ := Option.bind_eq_some.1 h
  split at h
  · cases h; simp at ho
  rename_i hnick
  split at h
  · cases h; simp at ho
  obtain ⟨⟨s₁, out, err⟩, h₁, h⟩ := Option.bind_eq_some.1 h
  refine ⟨by simp [ha], c, hp, ?_, Option.ne_none_iff_isSome.1 hnick⟩
  have hout := handleAdcget_sent h₁
  dsimp only at h hout
  split at h
  · cases h; exact hout o ho
  · obtain ⟨c₁, -, h⟩ := Option.bind_eq_some.1 h
    cases h
    rcases List.mem_append.1 ho with ho | ho
    · exact hout o ho
    · obtain ⟨-, rfl⟩ := mem_netSend ho
      split at hpay <;> exact absurd hpay Bool.false_ne_true

theorem ccStep_cases {e : CcEvent} {out : List CcOut} (h : ccStep E s e = some (s', out)) :
    (CcOps E s s' ∧ ∀ o ∈ out, o.payload = false) ∨
      ∃ p cmd c, e = .frame p cmd ∧ s.heap p = some c ∧ c.net.phase = .connected ∧
        handleCmd E s p cmd = some (s', out) := by
  cases e with
  | dial hub => cases h; exact .inl ⟨.single (.create hub .connecting), by simp⟩
  | incoming hub => cases h; exact .inl ⟨.single (.create hub .connected), by simp⟩
  | established p =>
      simp only [ccStep] at h
      split at h
      · rename_i c hp
        split_ifs at h with hph
        · exact .inl ⟨.head (.connect p hp hph) (handleConnect_ops h), handleConnect_quiet h⟩
        · cases h; exact .inl ⟨.refl, by simp⟩
      · cases h; exact .inl ⟨.refl, by simp⟩
  | frame p cmd =>
      simp only [ccStep] at h
      split at h
      · rename_i c hp
        split_ifs at h with hph
        · exact .inr ⟨p, cmd, c, rfl, hp, hph, h⟩
        · cases h; exact .inl ⟨.refl, by simp⟩
      · cases h; exact .inl ⟨.refl, by simp⟩
  | error p msg =>
      simp only [ccStep] at h
      split at h
      · split_ifs at h
        · cases h; exact .inl ⟨.refl, by simp⟩
        · obtain ⟨_, hs, ⟨⟩⟩ := Option.map_eq_some'.1 h
          exact .inl ⟨.single (handleError_op hs), by simp⟩
      · cases h; exact .inl ⟨.refl, by simp⟩
  | sent p n =>
      simp only [ccStep] at h
      split at h
      · rename_i c hp
        split_ifs at h
        · cases h
          refine .inl ⟨.single (.store p _ hp ⟨rfl, rfl, rfl, rfl, rfl⟩ fun hb => .inl ?_),
            by simp⟩
          simp only [CcSession.slotBusy, Bool.and_eq_true, decide_eq_true_eq] at hb ⊢
          exact ⟨by omega, hb.2⟩
        · cases h; exact .inl ⟨.refl, by simp⟩
      · cases h; exact .inl ⟨.refl, by simp⟩
  | disconnect p =>
      obtain ⟨c, hp, ⟨⟩⟩ := Option.map_eq_some'.1 h
      exact .inl ⟨.single (nmdcCcDisconnect_op hp c.err), by simp⟩
  | free p =>
      obtain ⟨_, hs, ⟨⟩⟩ := Option.map_eq_some'.1 h
      exact .inl ⟨nmdcCcFree_ops hs, by simp⟩
  | fire src =>
      simp only [ccStep] at h
      split at h
      · obtain ⟨_, hs, ⟨⟩⟩ := Option.map_eq_some'.1 h
        exact .inl ⟨handleTimeout_ops hs, by simp⟩
      · cases h; exact .inl ⟨.refl, by simp⟩
  | hubSet hid hub => cases h; exact .inl ⟨.single (.retime rfl rfl rfl), by simp⟩
  | hubClose hid =>
      obtain ⟨_, hs, ⟨⟩⟩ := Option.map_eq_some'.1 h
      exact .inl ⟨(nmdcCcRemoveHub_ops hs).tail (.retime rfl rfl rfl), by simp⟩

/-- Every event is a chain of operations. -/
theorem ccStep_moves {e : CcEvent} {out : List CcOut} (h : ccStep E s e = some (s', out)) :
    CcMoves E s s' := by
  rcases ccStep_cases h with ⟨hs, -⟩ | ⟨p, cmd, c, rfl, hp, hph, h⟩
  · exact hs.moves
  · exact handleCmd_moves (fun c' hc' => by cases hp.symm.trans hc'; exact hph) h

end Handlers

theorem CcReachable.moves {E : CcEnv} {s : Cc} (h : CcReachable E s) : CcMoves E Cc.init s := by
  induction h with
  | init => exact .refl
  | step _ hs ih => exact ih.trans (ccStep_moves hs)

theorem CcReachable.run {E : CcEnv} {s s' : Cc} (hs : CcReachable E s) (es : List CcEvent)
    (h : ccRun E s es = some s') : CcReachable E s' := by
  induction es generalizing s with
  | nil => cases h; exact hs
  | cons e es ih =>
      obtain ⟨⟨t, out⟩, ht, h⟩ := Option.bind_eq_some.1 h
      exact ih (hs.step ht) h

theorem CcMoves.holds {E : CcEnv} {I : Cc → Prop}
    (hop : ∀ s s', I s → CcOp E s s' → I s')
    (hacc : ∀ p nick s s', I s → CcAccept p nick s s' → I s')
    {s s' : Cc} (hm : CcMoves E s s') (hs : I s) : I s' := by
  induction hm with
  | refl => exact hs
  | tail _ hm ih => exact hm.elim (hop _ _ ih) fun ⟨p, nick, ha⟩ => hacc p nick _ _ ih ha

theorem CcReachable.holds {E : CcEnv} {I : Cc → Prop} (h0 : I Cc.init)
    (hop : ∀ s s', I s → CcOp E s s' → I s')
    (hacc : ∀ p nick s s', I s → CcAccept p nick s s' → I s')
    {s : Cc} (hs : CcReachable E s) : I s :=
  hs.moves.holds hop hacc h0

/-! ### The registry is well formed -/

/-- The registry's bookkeeping: `nmdc_cc_list` lists each live session once, and the
pointers not yet handed out are free. -/
structure CcWf (s : Cc) : Prop where
  nodup : s.list.Nodup
  listed : ∀ q, q ∈ s.list ↔ (s.heap q).isSome
  fresh : ∀ q, s.next ≤ q → s.heap q = none

namespace CcWf

variable {s s' : Cc}

theorem init : CcWf Cc.init := ⟨List.nodup_nil, by simp [Cc.init], fun _ _ => rfl⟩

theorem lt_next (h : CcWf s) {p : Nat} {c : CcSession} (hp : s.heap p = some c) :
    p < s.next :=
  Nat.lt_of_not_le fun hn => by simp [h.fresh p hn] at hp

theorem update (h : CcWf s) {p : Nat} {c c' : CcSession} (hp : s.heap p = some c)
    (hl : s'.list = s.list) (hn : s'.next = s.next)
    (hh : s'.heap = Function.update s.heap p (some c')) : CcWf s' where
  nodup := hl ▸ h.nodup
  listed q := by
    rw [hl, h.listed, hh]
    by_cases hq : q = p
    · subst hq; simp [hp]
    · simp [hq]
  fresh q hq := by
    have hne : q ≠ p := by have := h.lt_next hp; omega
    rw [hh, Function.update_noteq hne]
    exact h.fresh q (hn ▸ hq)

theorem create (h : CcWf s) (hub : Option Nat) (phase : NetPhase) :
    CcWf (nmdcCcCreate s hub phase).1 where
  nodup := List.nodup_cons.2 ⟨by simp [h.listed, h.fresh], h.nodup⟩
  listed q := by
    by_cases hq : q = s.next
    · subst hq; simp [nmdcCcCreate]
    · simp [nmdcCcCreate, hq, h.listed]
  fresh q hq := by
    have hne : q ≠ s.next := by simp only [nmdcCcCreate] at hq; omega
    simp only [nmdcCcCreate, Function.update_noteq hne]
    exact h.fresh q (by simp only [nmdcCcCreate] at hq; omega)

theorem drop (h : CcWf s) (p : Nat) :
    CcWf { s with list := s.list.erase p, heap := Function.update s.heap p none } where
  nodup := h.nodup.erase p
  listed q := by
    by_cases hq : q = p
    · subst hq; simp [h.nodup.not_mem_erase]
    · simp [hq, List.mem_erase_of_ne hq, h.listed]
  fresh q hq := by
    by_cases hqp : q = p
    · subst hqp; simp
    · simp [hqp, h.fresh q hq]

theorem op {E : CcEnv} (h : CcWf s) (hs : CcOp E s s') : CcWf s' := by
  cases hs with
  | create hub phase => exact h.create hub phase
  | connect p hp _ => exact h.update hp rfl rfl rfl
  | disconnect p c' hp _ _ => exact h.update hp rfl rfl rfl
  | store p c' hp _ _ => exact h.update hp rfl rfl rfl
  | clearHub p hp => exact h.update hp rfl rfl rfl
  | drop p => exact h.drop p
  | retime hl hh hn =>
      exact ⟨hl ▸ h.nodup, fun q => hl ▸ hh ▸ h.listed q, hn ▸ hh ▸ h.fresh⟩

theorem accept {p : Nat} {nick : List Char} (h : CcWf s) (hs : CcAccept p nick s s') :
    CcWf s' := by
  cases hs with
  | mk name hp => exact h.update hp rfl rfl rfl

end CcWf

theorem CcReachable.wf {E : CcEnv} {s : Cc} (hs : CcReachable E s) : CcWf s :=
  hs.holds .init (fun _ _ h => h.op) fun _ _ _ _ h => h.accept

/-- A small setting for sample runs: one slot, and a share with one 20000-byte file `/a`. -/
def oneSlotEnv : CcEnv where
  helpers := Helpers.plain
  share :=
    { listFile := "files.xml.bz2".toList
      hasList := true
      validUtf8 := fun _ => true
      fromPath := fun id => if id = "/a".toList then some (some "/a".toList, "/a".toList) else none
      fromTth := fun _ => none
      hashdat := fun _ => none
      stat := fun _ => some (true, 20000) }
  slots := 1
  pk := []

end Ncdc
