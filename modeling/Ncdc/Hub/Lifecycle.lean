import Ncdc.Hub.AdcState
import Ncdc.Cc.Session

/-!
The life of one hub tab around its connection: connect, the transport callbacks, the
`check_nfo` tick, the reconnect timer and `hub_free`. The tick advertises on an unvalidated
connection, and an overwritten reconnect timer fires after `hub_free`.
-/

namespace Ncdc

/-- The operation `handle_error` reports a failure of: `NETERR_CONN`, `NETERR_RECV` or
`NETERR_SEND`. -/
inductive NetErr
  | conn
  | recv
  | send
  deriving DecidableEq, Repr

/-- A hub tab: the `struct hub`, the phase of `hub->net`, the address it last dialled, and
whether `hub_free` has released the record. -/
structure HubConn where
  hub : Hub
  phase : NetPhase
  addr : List Char
  freed : Bool

/-- A tab right after `hub_create`: no connection and no reconnect timer. -/
def HubConn.init : HubConn := ⟨hubCreate, .closed, [], false⟩

/-- What can happen to a hub tab. -/
inductive HubConnEvent
  /-- `handle_cmd`: a frame from the transport. -/
  | frame (conf : Conf) (msg : List Char)
  /-- `hub_disconnect(hub, recon)`. -/
  | disconnect (recon : Bool)
  /-- The five-minute timer runs `check_nfo`. -/
  | tick (conf : Conf)
  /-- `handle_error(net, action, err)`; `cancelled` is `err->code == G_IO_ERROR_CANCELLED`. -/
  | error (action : NetErr) (cancelled : Bool)
  /-- `hub_connect(hub)` with the configured `hubaddr`. -/
  | connect (hubaddr : List Char)
  /-- `handle_connect`: the transport's connection is made. -/
  | established
  /-- The main loop dispatches the timer source `t`, with the configured `hubaddr`. -/
  | fire (t : Nat) (hubaddr : List Char)
  /-- `hub_free(hub)`. -/
  | free

/-! ### The functions of `hub.c` -/

/-- `g_timeout_add_seconds(30, reconnect_timer, hub)` stored in `hub->reconnect_timer`;
a timer it names is not removed. -/
def Hub.armReconnect (h : Hub) : Hub :=
  { h with
    reconnectTimer := h.nextSource + 1
    timers := (h.nextSource + 1) :: h.timers
    nextSource := h.nextSource + 1 }

/-- `hub_connect(hub)`: the dialect from the address's scheme, a trailing slash dropped,
the pending reconnect timer removed; the address is what `net_connect` is given. `none`
for an empty `hubaddr`, where `addr[strlen(addr)-1]` reads before the string. -/
def hubConnect (h : Hub) (hubaddr : List Char) : Option (Hub × List Char) :=
  if hubaddr = [] then none
  else
    let (adc, addr) :=
      if "dchub://".toList.isPrefixOf hubaddr then (false, hubaddr.drop 8)
      else if "adc://".toList.isPrefixOf hubaddr then (true, hubaddr.drop 6)
      else (false, hubaddr)
    let addr := if addr.getLast? = some '/' then addr.dropLast else addr
    let h := { h with adc := adc }
    some (if h.reconnectTimer ≠ 0 then
        { h with timers := h.timers.erase h.reconnectTimer, reconnectTimer := 0 }
      else h, addr)

/-- Store a handler's result: `net_disconnect` among its effects closes the transport. -/
def HubConn.after (s : HubConn) (r : Hub × List HubOut) : HubConn × List HubOut :=
  ({ s with hub := r.1, phase := if HubOut.disconnect ∈ r.2 then .closed else s.phase }, r.2)

/-- `handle_error(net, action, err)`: a cancelled operation is ignored; a failed connect
arms the reconnect timer, a failed read or write disconnects to reconnect. -/
def hubHandleError (s : HubConn) (action : NetErr) (cancelled : Bool) : HubConn × List HubOut :=
  if cancelled then (s, [])
  else
    match action with
    | .conn => ({ s with hub := s.hub.armReconnect, phase := .closed }, [])
    | .recv | .send => s.after (hubDisconnect s.hub true)

/-- One event; `none` where the C code's behaviour is undefined. Only a pending timer can
still fire once the tab is freed, and it reads the freed record. -/
def hubConnStep (H : Helpers) (s : HubConn) : HubConnEvent → Option (HubConn × List HubOut)
  | .fire t hubaddr =>
      if t ∉ s.hub.timers then some (s, [])
      else if s.freed then none
      else do
        let (h, addr) ← hubConnect s.hub hubaddr
        some (⟨{ h with reconnectTimer := 0, timers := h.timers.erase t }, .connecting, addr,
          false⟩, [])
  | e =>
      if s.freed then some (s, [])
      else
        match e with
        | .frame conf msg =>
            if s.phase = .connected then (handleCmd H conf s.hub msg).map s.after
            else some (s, [])
        | .disconnect recon => some (s.after (hubDisconnect s.hub recon))
        | .tick conf => some (s.after (hubSendNfo H conf s.hub))
        | .error action cancelled =>
            if s.phase = .closed then some (s, []) else some (hubHandleError s action cancelled)
        | .connect hubaddr =>
            (hubConnect s.hub hubaddr).map fun (h, addr) => (⟨h, .connecting, addr, false⟩, [])
        | .established =>
            if s.phase = .connecting then
              some ({ s with phase := .connected },
                if s.hub.adc then [.send "HSUP ADBASE ADTIGR".toList] else [])
            else some (s, [])
        | .free => some ({ s.after (hubDisconnect s.hub false) |>.1 with freed := true }, [])
        | .fire .. => some (s, [])

/-- A sequence of events, from the first. -/
def hubConnRun (H : Helpers) (s : HubConn) : List HubConnEvent → Option HubConn
  | [] => some s
  | e :: es => (hubConnStep H s e).bind fun r => hubConnRun H r.1 es

/-! ### The tick before validation -/

theorem hubSendNfo_unvalidated (H : Helpers) (c : Conf) (h : Hub) (hv : h.nickValid = false) :
    ∃ frame, (hubSendNfo H c h).2 = [.send frame] := by
  simp only [hubSendNfo, hv, Bool.false_eq_true, false_and, if_false]
  exact ⟨_, rfl⟩

/-- `check_nfo` on a tab whose nick is not validated sends a frame and keeps the
connection. -/
theorem tick_advertises_unvalidated (H : Helpers) (conf : Conf) (s : HubConn)
    (hf : s.freed = false) (hv : s.hub.nickValid = false) :
    ∃ frame, hubConnStep H s (.tick conf) =
      some ({ s with hub := (hubSendNfo H conf s.hub).1 }, [.send frame]) := by
  obtain ⟨frame, hfr⟩ := hubSendNfo_unvalidated H conf s.hub hv
  refine ⟨frame, ?_⟩
  simp [hubConnStep, hf, HubConn.after, hfr]

/-- Dialling an NMDC hub and connecting: the hub has not sent `$Lock` yet. -/
def dialNmdc : List HubConnEvent := [.connect "dchub://hub:411/".toList, .established]

theorem tick_before_lock_sends_myinfo :
    ∃ s, hubConnRun Helpers.plain HubConn.init dialNmdc = some s ∧ s.phase = .connected ∧
      ∃ frame, hubConnStep Helpers.plain s (.tick Conf.plain) =
        some ({ s with hub := (hubSendNfo Helpers.plain Conf.plain s.hub).1 }, [.send frame]) :=
  ⟨_, rfl, rfl, tick_advertises_unvalidated Helpers.plain Conf.plain _ rfl rfl⟩

/-! ### The reconnect timer -/

@[simp] theorem Hub.removeAll_reconnectTimer (h : Hub) :
    h.removeAll.reconnectTimer = h.reconnectTimer := rfl

@[simp] theorem Hub.removeAll_timers (h : Hub) : h.removeAll.timers = h.timers := rfl

@[simp] theorem hubDisconnect_true_timers (h : Hub) :
    (hubDisconnect h true).1.timers = (h.nextSource + 1) :: h.timers := rfl

@[simp] theorem hubDisconnect_true_reconnectTimer (h : Hub) :
    (hubDisconnect h true).1.reconnectTimer = h.nextSource + 1 := rfl

@[simp] theorem hubDisconnect_false_reconnectTimer (h : Hub) :
    (hubDisconnect h false).1.reconnectTimer = 0 := by
  simp only [hubDisconnect, Bool.false_eq_true, if_false, Hub.removeAll_reconnectTimer,
    Hub.removeAll_timers]
  split_ifs with h0
  · rfl
  · exact not_not.1 h0

theorem hubDisconnect_false_timers (h : Hub) :
    (hubDisconnect h false).1.timers =
      if h.reconnectTimer ≠ 0 then h.timers.erase h.reconnectTimer else h.timers := by
  simp only [hubDisconnect, Bool.false_eq_true, if_false, Hub.removeAll_reconnectTimer,
    Hub.removeAll_timers]; split_ifs <;> rfl

@[simp] theorem hubConnStep_cancelled (H : Helpers) (s : HubConn) (action : NetErr) :
    hubConnStep H s (.error action true) = some (s, []) := by
  simp only [hubConnStep, hubHandleError, if_true]; split_ifs <;> rfl

/-- A second `hub_disconnect(hub, TRUE)` while a reconnect timer is pending leaves that
timer pending behind a new one; `hub_free` then removes only the new one, and the old one
fires on the freed record. -/
theorem reconnect_timer_outlives_free (H : Helpers) (s : HubConn) (hubaddr : List Char)
    (hf : s.freed = false) (ht : s.hub.reconnectTimer ∈ s.hub.timers) :
    ∃ s', hubConnRun H s [.disconnect true, .free] = some s' ∧ s'.freed = true ∧
      s'.hub.reconnectTimer = 0 ∧ s.hub.reconnectTimer ∈ s'.hub.timers ∧
      hubConnStep H s' (.fire s.hub.reconnectTimer hubaddr) = none := by
  have hleft :
      s.hub.reconnectTimer ∈ (hubDisconnect (hubDisconnect s.hub true).1 false).1.timers := by
    simp [hubDisconnect_false_timers, ht]
  refine ⟨_, by simp only [hubConnRun, hubConnStep, hf, HubConn.after]; rfl, rfl,
    hubDisconnect_false_reconnectTimer _, hleft, ?_⟩
  simp [hubConnStep, hleft]

/-- Two reconnecting disconnects and `hub_free`, from a fresh tab. -/
theorem disconnect_twice_then_free_leaks :
    hubConnRun Helpers.plain HubConn.init [.disconnect true] =
        some ⟨(hubDisconnect hubCreate true).1, .closed, [], false⟩ ∧
      ∃ s', hubConnRun Helpers.plain ⟨(hubDisconnect hubCreate true).1, .closed, [], false⟩
          [.disconnect true, .free] = some s' ∧ s'.freed = true ∧ s'.hub.reconnectTimer = 0 ∧
        1 ∈ s'.hub.timers ∧
        hubConnStep Helpers.plain s' (.fire 1 "dchub://hub".toList) = none :=
  ⟨rfl, reconnect_timer_outlives_free Helpers.plain ⟨(hubDisconnect hubCreate true).1, .closed,
    [], false⟩ "dchub://hub".toList rfl (by decide)⟩

end Ncdc
