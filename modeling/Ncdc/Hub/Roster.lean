import Ncdc.Hub.Nmdc

/-!
The roster of a hub session: `hub->users`, `hub->sessions` and the share totals kept beside
them. A `BINF` renaming onto another user's nick and an `IQUI` each leave a `hub->sessions`
entry whose user `hub->users` no longer holds.
-/

namespace Ncdc

/-- The events of a hub session: frames of either dialect (an ADC frame as `adc_parse`
hands it to the `switch` of `adc_handle`), and `hub_disconnect` from the UI. -/
inductive HubEvent
  | nmdc (conf : Conf) (frame : List Char)
  | adc (conf : Conf) (cmd : AdcCmd)
  | disconnect (recon : Bool)

/-- One event; `none` where the C code's behaviour is undefined. -/
def hubStep (H : Helpers) (h : Hub) : HubEvent → Option (Hub × List HubOut)
  | .nmdc conf frame => nmdcHandle H conf h frame
  | .adc conf c => adcHandleCmd H conf h c
  | .disconnect recon => some (hubDisconnect h recon)

/-- A sequence of events, from the first. -/
def hubRun (H : Helpers) (h : Hub) : List HubEvent → Option Hub
  | [] => some h
  | e :: es => (hubStep H h e).bind fun r => hubRun H r.1 es

/-- The key `user_add` files a record under: its UTF-8 name on ADC, its hub-encoded name
on NMDC. -/
def Hub.userKey (h : Hub) (u : HubUser) : Option (List Char) :=
  if h.adc then some u.name else u.nameHub

/-- The maps of the roster agree: every entry of `hub->users` is a live record filed under
its current key, and on ADC `hub->sessions` holds exactly the listed users, each under
its own session id. -/
structure RosterConsistent (h : Hub) : Prop where
  keyed : ∀ k p, (k, p) ∈ h.users → ∃ u, h.heap p = some u ∧ h.userKey u = some k
  sessions_listed : h.adc → ∀ s p, (s, p) ∈ h.sessions →
    p ∈ h.users.map Prod.snd ∧ ∃ u, h.heap p = some u ∧ u.sid = s
  listed_sessions : h.adc → ∀ k p, (k, p) ∈ h.users →
    ∃ u, h.heap p = some u ∧ (u.sid, p) ∈ h.sessions

/-- The listed users whose info has been received. -/
def Hub.infoUsers (h : Hub) : List HubUser :=
  h.users.filterMap fun e => (h.heap e.2).filter (·.hasinfo)

/-- `hub->sharecount` counts the listed users with info and `hub->sharesize` adds up
their shares as a `guint64`. -/
def ShareTotals (h : Hub) : Prop :=
  h.sharecount = h.infoUsers.length ∧
    h.sharesize = (h.infoUsers.map (·.sharesize)).sum % 2 ^ 64

/-- An ADC `BINF` carrying only a nick. -/
def binfNick (source : Nat) (nick : List Char) : AdcCmd :=
  ⟨'B', "INF".toList, source, ["NI".toList ++ nick]⟩

/-- Users `a` (session 1) and `b` (session 2) join, then session 1 renames itself to `b`. -/
def renameOntoTakenNick (conf : Conf) : List HubEvent :=
  [.adc conf (binfNick 1 "a".toList), .adc conf (binfNick 2 "b".toList),
    .adc conf (binfNick 1 "b".toList)]

theorem renameOntoTakenNick_state :
    (hubRun Helpers.plain { hubCreate with adc := true } (renameOntoTakenNick Conf.plain)).map
        (fun h => ((h.adc, h.users.map Prod.snd, h.sessions),
          ((h.heap 1).isNone, h.sharecount, h.infoUsers.length))) =
      some ((true, [0], [(2, 1), (1, 0)]), (true, 2, 1)) := by
  decide

theorem adc_rename_breaks_roster :
    ∃ h, hubRun Helpers.plain { hubCreate with adc := true } (renameOntoTakenNick Conf.plain) =
      some h ∧ ¬RosterConsistent h := by
  have hs := renameOntoTakenNick_state
  cases hr : hubRun Helpers.plain { hubCreate with adc := true } (renameOntoTakenNick Conf.plain)
    with
  | none => simp [hr] at hs
  | some h =>
      simp only [hr, Option.map_some', Option.some.injEq, Prod.mk.injEq] at hs
      obtain ⟨⟨hadc, hu, hse⟩, -⟩ := hs
      refine ⟨h, rfl, fun hc => ?_⟩
      have := (hc.sessions_listed hadc 2 1 (by simp [hse])).1
      simp [hu] at this

theorem adc_rename_breaks_share_totals :
    ∃ h, hubRun Helpers.plain { hubCreate with adc := true } (renameOntoTakenNick Conf.plain) =
      some h ∧ ¬ShareTotals h := by
  have hs := renameOntoTakenNick_state
  cases hr : hubRun Helpers.plain { hubCreate with adc := true } (renameOntoTakenNick Conf.plain)
    with
  | none => simp [hr] at hs
  | some h =>
      simp only [hr, Option.map_some', Option.some.injEq, Prod.mk.injEq] at hs
      obtain ⟨-, -, hc, hi⟩ := hs
      exact ⟨h, rfl, fun ht => by have := ht.1; omega⟩

/-! ### Operator flags -/

/-- An `$OpList` frame passes every other test of `nmdc_handle`: the handler is the
`$OpList` branch. -/
theorem nmdcHandle_opList (H : Helpers) (conf : Conf) (h : Hub) {cmd str : List Char}
    (hm : matchOpList cmd = some str) : nmdcHandle H conf h cmd = nmdcOpList H cmd h := by
  obtain ⟨t, rfl⟩ : ∃ t, cmd = "$OpList ".toList ++ t := by
    unfold matchOpList literal at hm
    split_ifs at hm with hp
    · exact ⟨_, (List.prefix_iff_eq_append.1 (List.isPrefixOf_iff_prefix.1 hp)).symm⟩
    · cases hm
  simp [nmdcHandle, nmdcBranches, runBranch, nmdcLock, matchLock, nmdcSupports, matchSupports,
    nmdcHello, matchHello, nmdcQuit, matchQuit, nmdcNickList, matchNickList, nmdcMyinfo,
    matchMyinfo, nmdcHubName, matchHubName, nmdcForceMove, matchForceMove, nmdcConnectToMe,
    matchConnectToMe, nmdcRevConnectToMe, matchRevConnectToMe, nmdcSearch, matchSearch_eq_none,
    nmdcGetPass, nmdcFatalPrefix, literal]

/-- Every user `hub->users` lists is a live record below the allocation counter, and no
record lies past it. -/
structure RosterLive (h : Hub) : Prop where
  listed : ∀ k p, h.users.lookup k = some p → (h.heap p).isSome ∧ p < h.next
  fresh : ∀ q, h.next ≤ q → h.heap q = none

/-- `hub->users` files the key `k` under `p`, and the record there has `isop` set. -/
def OpFlagged (h : Hub) (k : List Char) (p : Nat) : Prop :=
  h.users.lookup k = some p ∧ ∃ u, h.heap p = some u ∧ u.isop = true

theorem userAdd_fresh (H : Helpers) {h : Hub} {n : List Char} (hn : h.users.lookup n = none) :
    (userAdd H h n).2 = h.next ∧ (userAdd H h n).1.users = (n, h.next) :: h.users ∧
      (userAdd H h n).1.next = h.next + 1 ∧ ((userAdd H h n).1.heap h.next).isSome ∧
      ∀ q, q ≠ h.next → (userAdd H h n).1.heap q = h.heap q := by
  simp only [userAdd, hn, Hub.usersInsert, Hub.setUser, tableInsert, lookup_decEq,
    Option.isSome_none, Bool.false_eq_true, if_false, true_and]
  exact ⟨by simp, fun q hq => by simp [Function.update_apply, hq]⟩

theorem userAdd_live (H : Helpers) {h : Hub} (hl : RosterLive h) (n : List Char) :
    RosterLive (userAdd H h n).1 ∧ ((userAdd H h n).1.heap (userAdd H h n).2).isSome ∧
      (userAdd H h n).2 < (userAdd H h n).1.next := by
  cases hn : h.users.lookup n with
  | some p => simp only [userAdd, hn]; exact ⟨hl, hl.listed n p hn⟩
  | none =>
      obtain ⟨hp, hu, hnext, hnew, hold⟩ := userAdd_fresh H hn
      rw [hp, hnext]
      refine ⟨⟨fun k q hk => ?_, fun q hq => ?_⟩, hnew, by omega⟩
      · rw [hu, List.lookup_cons] at hk
        split at hk
        · cases hk; exact ⟨hnew, by omega⟩
        · have := hl.listed k q hk
          rw [hnext, hold q (Nat.ne_of_lt this.2)]
          exact ⟨this.1, by omega⟩
      · rw [hnext] at hq
        rw [hold q (by omega)]
        exact hl.fresh q (by omega)

theorem userAdd_keeps (H : Helpers) {h : Hub} (hl : RosterLive h) {k n : List Char}
    {p : Nat} (hk : h.users.lookup k = some p) (hkn : k ≠ n) :
    (userAdd H h n).1.users.lookup k = some p ∧ (userAdd H h n).1.heap p = h.heap p := by
  cases hn : h.users.lookup n with
  | some q => simp only [userAdd, hn, and_true]; exact hk
  | none =>
      obtain ⟨-, hu, -, -, hold⟩ := userAdd_fresh H hn
      rw [hu, List.lookup_cons, hold p (Nat.ne_of_lt (hl.listed k p hk).2),
        beq_eq_false_iff_ne.2 hkn]
      exact ⟨hk, rfl⟩

theorem RosterLive.setUser {h : Hub} (hl : RosterLive h) {q : Nat} (hq : q < h.next)
    (u : HubUser) : RosterLive (h.setUser q u) := by
  refine ⟨fun k p hk => ?_, fun r hr => ?_⟩
  · have := hl.listed k p hk
    by_cases hpq : p = q
    · subst hpq; simp [Hub.setUser, this.2]
    · simpa [Hub.setUser, Function.update_apply, hpq] using this
  · have hr' : h.next ≤ r := hr
    simp only [Hub.setUser, Function.update_apply, if_neg (show r ≠ q by omega)]
    exact hl.fresh r hr'

theorem OpFlagged.setUser {h : Hub} {k : List Char} {p q : Nat} (hf : OpFlagged h k p)
    {u : HubUser} (hu : u.isop = true) : OpFlagged (h.setUser q u) k p := by
  obtain ⟨hk, v, hv, hop⟩ := hf
  refine ⟨hk, ?_⟩
  by_cases hpq : p = q
  · subst hpq; exact ⟨u, by simp [Hub.setUser], hu⟩
  · exact ⟨v, by simp [Hub.setUser, Function.update_apply, hpq, hv], hop⟩

/-- One name of an `$OpList`, on a live roster with the own nick set: it completes, keeps
the roster live and the own nick, and leaves every other flagged user flagged. -/
theorem opListName_keeps (H : Helpers) {h : Hub} (hl : RosterLive h) (hn : h.nickHub.isSome)
    (n : List Char) :
    ∃ h', opListName H h n = some h' ∧ RosterLive h' ∧ h'.nickHub = h.nickHub ∧
      ∀ k p, k ≠ n → OpFlagged h k p → OpFlagged h' k p := by
  obtain ⟨nick, hnick⟩ := Option.isSome_iff_exists.1 hn
  have hkeep := fun k p (hkn : k ≠ n) (hf : OpFlagged h k p) => userAdd_keeps H hl hf.1 hkn
  have hn₁ := userAdd_nickHub H h n
  obtain ⟨hl', hlive, hlt⟩ := userAdd_live H hl n
  generalize hr : userAdd H h n = r at hkeep hn₁ hl' hlive hlt
  obtain ⟨h₁, q⟩ := r
  dsimp only at hkeep hn₁ hl' hlive hlt
  obtain ⟨u, hu⟩ := Option.isSome_iff_exists.1 hlive
  have hl₂ := hl'.setUser hlt { u with isop := true }
  let h₂ := h₁.setUser q { u with isop := true }
  refine ⟨if n = nick then { h₂ with isop := true } else h₂, ?_, ?_, ?_, fun k p hkn hf => ?_⟩
  · have hown : ownNick h₂ n = some (decide (n = nick)) := by
      simp [h₂, ownNick, hn₁, hnick]
    simp only [opListName, hr, hu, Option.bind_eq_bind, Option.some_bind, hown,
      decide_eq_true_eq]
  · split <;> exact ⟨hl₂.listed, hl₂.fresh⟩
  · split <;> exact hn₁
  · obtain ⟨hk, hp⟩ := hkeep k p hkn hf
    have : OpFlagged h₁ k p := ⟨hk, hp ▸ hf.2⟩
    split <;> exact this.setUser rfl

theorem foldlM_opListName_keeps (H : Helpers) :
    ∀ (names : List (List Char)) {h : Hub}, RosterLive h → h.nickHub.isSome →
      ∀ {k : List Char} {p : Nat}, k ∉ names → OpFlagged h k p →
        ∃ r, names.foldlM (opListName H) h = some r ∧ OpFlagged r k p
  | [], h, _, _, _, _, _, hf => ⟨h, rfl, hf⟩
  | n :: ns, h, hl, hn, k, p, hk, hf => by
      obtain ⟨h', he, hl', hn', hkeep⟩ := opListName_keeps H hl hn n
      obtain ⟨r, hr, hfr⟩ := foldlM_opListName_keeps H ns hl' (hn' ▸ hn)
        (fun h => hk (.tail _ h)) (hkeep k p (fun h => hk (h ▸ .head _)) hf)
      exact ⟨r, by rw [List.foldlM_cons, he]; exact hr, hfr⟩

/-- `$OpList` does not reset operator flags. On a live roster with the own nick set, once
`nmdc_handle` has processed an `$OpList` frame, every user that was flagged an operator and
that the frame does not list is still listed and still flagged. -/
theorem oplist_keeps_unlisted_ops (H : Helpers) (conf : Conf) {h : Hub} (hl : RosterLive h)
    (hn : h.nickHub.isSome) {cmd str : List Char} (hm : matchOpList cmd = some str)
    {k : List Char} {p : Nat} (hf : OpFlagged h k p) (hk : k ∉ nickNames str) :
    ∃ r, nmdcHandle H conf h cmd = some (r, []) ∧ OpFlagged r k p := by
  obtain ⟨r, hr, hfr⟩ := foldlM_opListName_keeps H (nickNames str) (h := { h with isop := false })
    ⟨hl.listed, hl.fresh⟩ hn hk hf
  refine ⟨{ r with receivedFirst := true }, ?_, hfr⟩
  rw [nmdcHandle_opList H conf h hm]
  simp [nmdcOpList, hm, hr]

/-- A hub on which `bob` was flagged an operator by an earlier `$OpList`. -/
def bobOpHub : Hub :=
  { hubCreate with
    nickHub := some "me".toList
    users := [("bob".toList, 0)]
    heap := fun q => if q = 0 then some { HubUser.empty with nameHub := some "bob".toList, isop := true }
      else none
    next := 1 }

theorem bobOpHub_live : RosterLive bobOpHub := by
  refine ⟨fun k p hk => ?_, fun q hq => ?_⟩
  · change List.lookup k [("bob".toList, 0)] = some p at hk
    have : p = 0 := by
      rw [List.lookup_cons] at hk
      split at hk
      · exact (Option.some.inj hk).symm
      · cases hk
    subst this; simp [bobOpHub]
  · simp only [bobOpHub] at hq ⊢; rw [if_neg (by omega)]

/-- A later `$OpList` naming only `alice` leaves `bob` flagged. -/
theorem bob_stays_op :
    bobOpHub.nickHub.isSome ∧ matchOpList "$OpList alice$$".toList = some "alice$$".toList ∧
      OpFlagged bobOpHub "bob".toList 0 ∧ "bob".toList ∉ nickNames "alice$$".toList ∧
      ∃ r, nmdcHandle Helpers.plain Conf.plain bobOpHub "$OpList alice$$".toList = some (r, []) ∧
        OpFlagged r "bob".toList 0 :=
  have hm : matchOpList "$OpList alice$$".toList = some "alice$$".toList := by decide
  have hf : OpFlagged bobOpHub "bob".toList 0 := ⟨by decide, _, rfl, rfl⟩
  have hk : "bob".toList ∉ nickNames "alice$$".toList := by decide
  ⟨rfl, hm, hf, hk, oplist_keeps_unlisted_ops Helpers.plain Conf.plain bobOpHub_live rfl hm hf hk⟩

end Ncdc
