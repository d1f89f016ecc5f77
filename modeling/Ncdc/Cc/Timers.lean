import Ncdc.Cc.Session

/-!
The deferred-free timeouts of the C-C sessions. `nmdc_cc_disconnect` arms a fresh timeout on
every call and `nmdc_cc_free` starts by calling it, so a freed session leaves a timeout
pending that frees the record again when it fires.
-/

namespace Ncdc

open NmdcCc

@[simp] theorem nmdcCcDisconnect_timers (s : Cc) (p : Nat) (c : CcSession) :
    (nmdcCcDisconnect s p c).timers = s.timers ++ [(s.nextSource + 1, p)] := rfl

@[simp] theorem nmdcCcDisconnect_nextSource (s : Cc) (p : Nat) (c : CcSession) :
    (nmdcCcDisconnect s p c).nextSource = s.nextSource + 1 := rfl

theorem nmdcCcDisconnect_count (s : Cc) (p : Nat) (c : CcSession) :
    ((nmdcCcDisconnect s p c).timers.filter (·.2 = p)).length =
      (s.timers.filter (·.2 = p)).length + 1 := by
  simp

/-- Freeing a session leaves a pending timeout on it, and when that timeout fires
`handle_timeout` frees the record a second time. -/
theorem nmdcCcFree_leaves_dangling_timer {s s' : Cc} {p : Nat} (h : nmdcCcFree s p = some s') :
    s'.heap p = none ∧ (s'.nextSource, p) ∈ s'.timers ∧
      handleTimeout s' s'.nextSource p = none := by
  simp only [nmdcCcFree, Option.bind_eq_bind, Option.bind_eq_some, Option.some.injEq] at h
  obtain ⟨c, -, rfl⟩ := h
  refine ⟨by simp, by simp, ?_⟩
  simp [handleTimeout, nmdcCcFree]

/-- A fresh session freed at once. -/
theorem free_fresh_session_dangles :
    ∃ s', nmdcCcFree (nmdcCcCreate Cc.init none .connected).1 0 = some s' ∧
      (s'.heap 0 = none ∧ (s'.nextSource, 0) ∈ s'.timers ∧
        handleTimeout s' s'.nextSource 0 = none) :=
  ⟨_, rfl, nmdcCcFree_leaves_dangling_timer
    (s := (nmdcCcCreate Cc.init none .connected).1) rfl⟩

/-- A hub-less session we dial: `handle_connect` disconnects it, its timeout frees it and
arms another, and that one fires on the freed record. -/
def hublessDial : List CcEvent := [.dial none, .established 0, .fire 1, .fire 2]

theorem hublessDial_undefined (E : CcEnv) :
    (ccRun E Cc.init (hublessDial.take 3)).isSome ∧ ccRun E Cc.init hublessDial = none :=
  ⟨rfl, rfl⟩

end Ncdc
