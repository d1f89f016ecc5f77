import Ncdc.Hub.Fatal

/-!
The protocol state of an ADC hub session and the `nick_valid` flag beside it: `ISID`, `IINF`
and `hub_disconnect` are the only moves of the state, and from `hub_create` on the flag is set
exactly in the NORMAL state.
-/

namespace Ncdc

/-! ### The fields the state machine owns -/

/-- The fields of `struct hub` that the ADC protocol state machine owns. -/
def Hub.proto (h : Hub) : AdcState × Bool × Nat := (h.state, h.nickValid, h.sid)

@[simp] theorem Hub.usersSteal_proto (h : Hub) (k : List Char) :
    (h.usersSteal k).proto = h.proto := rfl

@[simp] theorem Hub.sessionsInsert_proto (h : Hub) (sid p : Nat) :
    (h.sessionsInsert sid p).proto = h.proto := rfl

/-- The ways one event may move the protocol state of `h` to that of `h'`: not at all, by
a well-formed `ISID` in PROTOCOL, by an `IINF` in IDENTIFY or VERIFY, or by
`hub_disconnect`, back to PROTOCOL with `nick_valid` cleared. -/
def AdcMove (H : Helpers) (h : Hub) (e : HubEvent) (h' : Hub) (out : List HubOut) : Prop :=
  h'.proto = h.proto ∨
  (∃ conf c a, e = .adc conf c ∧ c.cmd = "SID".toList ∧ c.type = 'I' ∧ c.argv = [a] ∧
    a.length = 4 ∧ h.state = .protocol ∧ h'.proto = (.identify, h.nickValid, H.adcDfcc a)) ∨
  (∃ conf c, e = .adc conf c ∧ c.cmd = "INF".toList ∧ c.type = 'I' ∧
    (h.state = .identify ∨ h.state = .verify) ∧ h'.proto = (.normal, true, h.sid)) ∨
  (∃ recon, (h', out) = hubDisconnect h recon) ∧ h'.proto = (.protocol, false, h.sid)

/-- The flag `nick_valid` is set exactly in the NORMAL state. -/
def NickValidInv (h : Hub) : Prop := h.nickValid = true ↔ h.state = .normal

theorem AdcMove.inv {H : Helpers} {h h' : Hub} {e : HubEvent} {out : List HubOut}
    (hm : AdcMove H h e h' out) (hi : NickValidInv h) : NickValidInv h' := by
  have hp : h'.proto = (h'.state, h'.nickValid, h'.sid) := rfl
  rcases hm with hm | ⟨-, -, a, -, -, -, -, -, hs, hm⟩ | ⟨-, -, -, -, -, -, hm⟩ | ⟨-, hm⟩
  · simp only [Hub.proto, hp, Prod.mk.injEq] at hm
    rw [NickValidInv, hm.1, hm.2.1]; exact hi
  · simp only [hp, Prod.mk.injEq] at hm
    simp [NickValidInv, hm.1, hm.2.1, (iff_false_right (by simp [hs])).1 hi]
  all_goals
    simp only [hp, Prod.mk.injEq] at hm
    simp [NickValidInv, hm.1, hm.2.1]

end Ncdc
