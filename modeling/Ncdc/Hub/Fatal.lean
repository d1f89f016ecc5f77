import Ncdc.Hub.Roster

/-!
Which frames end a hub connection, and which read the own nick before the hub has one:
`hub->nick_hub` is `NULL` until `$Lock`, and four branches compare against it unchecked.
-/

namespace Ncdc

/-! ### Emitting a disconnect -/

/-- A branch emits `net_disconnect` exactly when `fatal` holds, in every state where it
runs to completion. -/
def Branch.ClosesIff (b : Branch) (fatal : Prop) : Prop :=
  ∀ h r, b h = some r → (HubOut.disconnect ∈ r.2 ↔ fatal)

@[simp] theorem hubDisconnect_out (h : Hub) (recon : Bool) :
    (hubDisconnect h recon).2 = [.disconnect] := rfl

@[simp] theorem hubDisconnect_nickHub (h : Hub) (recon : Bool) :
    (hubDisconnect h recon).1.nickHub = none := by
  simp only [hubDisconnect]; split_ifs <;> rfl

theorem hubSendNfo_quiet (H : Helpers) (c : Conf) (h : Hub) :
    HubOut.disconnect ∉ (hubSendNfo H c h).2 := by
  simp only [hubSendNfo]; split_ifs <;> simp

theorem runBranch_closes {b : Branch} {fatal : Prop} (hb : b.ClosesIff fatal)
    {r r' : Hub × List HubOut} (h : runBranch r b = some r') :
    HubOut.disconnect ∈ r'.2 ↔ HubOut.disconnect ∈ r.2 ∨ fatal := by
  unfold runBranch at h
  cases hr : b r.1 with
  | none => simp [hr] at h
  | some s =>
      simp only [hr, Option.map_some', Option.some.injEq] at h
      subst h
      simp [hb r.1 s hr]

theorem foldlM_runBranch_closes :
    ∀ (l : List (Branch × Prop)), (∀ p ∈ l, p.1.ClosesIff p.2) →
      ∀ r r', (l.map Prod.fst).foldlM runBranch r = some r' →
        (HubOut.disconnect ∈ r'.2 ↔ HubOut.disconnect ∈ r.2 ∨ ∃ p ∈ l, p.2)
  | [], _, r, r', h => by simp at h; simp [h]
  | p :: l, hl, r, r', h => by
      simp only [List.map_cons, List.foldlM_cons, Option.bind_eq_bind] at h
      cases hs : runBranch r p.1 with
      | none => simp [hs] at h
      | some s =>
          simp only [hs, Option.some_bind] at h
          rw [foldlM_runBranch_closes l (fun q hq => hl q (List.mem_cons_of_mem p hq)) s r' h,
            runBranch_closes (hl p (List.mem_cons_self p l)) hs]
          simp [or_assoc]

section Branches

variable (H : Helpers) (conf : Conf) (cmd : List Char)

theorem nmdcLock_closes : (nmdcLock H conf cmd).ClosesIff False := by
  intro h r hb; simp only [nmdcLock] at hb; split at hb <;> cases hb <;> simp

theorem nmdcSupports_closes : (nmdcSupports cmd).ClosesIff False := by
  intro h r hb; simp only [nmdcSupports] at hb; split at hb <;> cases hb <;> simp

theorem nmdcHello_closes : (nmdcHello H conf cmd).ClosesIff False := by
  intro h r hb
  simp only [nmdcHello, Option.bind_eq_bind] at hb
  split at hb
  · cases hb; simp
  · simp only [Option.bind_eq_some] at hb
    obtain ⟨own, -, hb⟩ := hb
    split_ifs at hb <;> simp only [Option.bind_eq_some, Option.some.injEq] at hb
    · subst hb; simp
    · subst hb; simp [hubSendNfo_quiet]
    · obtain ⟨u, -, rfl⟩ := hb; split_ifs <;> simp

theorem nmdcQuit_closes : (nmdcQuit cmd).ClosesIff False := by
  intro h r hb
  simp only [nmdcQuit, Option.bind_eq_bind] at hb
  split at hb
  · cases hb; simp
  · split at hb
    · cases hb; simp
    · simp only [Option.bind_eq_some, Option.some.injEq] at hb
      obtain ⟨u, -, rfl⟩ := hb; simp

theorem foldlM_nickListName_quiet :
    ∀ (names : List (List Char)) (r r' : Hub × List HubOut),
      names.foldlM (nickListName H) r = some r' →
        HubOut.disconnect ∈ r'.2 → HubOut.disconnect ∈ r.2
  | [], r, r', h => by simp at h; subst h; exact id
  | n :: ns, r, r', h => by
      simp only [List.foldlM_cons, Option.bind_eq_bind, Option.bind_eq_some] at h
      obtain ⟨s, hs, h⟩ := h
      intro hd
      have := foldlM_nickListName_quiet ns s r' h hd
      simp only [nickListName, Option.bind_eq_bind, Option.bind_eq_some,
        Option.some.injEq] at hs
      obtain ⟨u, -, rfl⟩ := hs
      split_ifs at this <;> simpa using this

theorem nmdcNickList_closes : (nmdcNickList H cmd).ClosesIff False := by
  intro h r hb
  simp only [nmdcNickList, Option.bind_eq_bind] at hb
  split at hb
  · cases hb; simp
  · simp only [Option.bind_eq_some, Option.some.injEq] at hb
    obtain ⟨s, hs, rfl⟩ := hb
    simpa using foldlM_nickListName_quiet H _ _ _ hs

theorem nmdcOpList_closes : (nmdcOpList H cmd).ClosesIff False := by
  intro h r hb
  simp only [nmdcOpList, Option.bind_eq_bind] at hb
  split at hb
  · cases hb; simp
  · simp only [Option.bind_eq_some, Option.some.injEq] at hb
    obtain ⟨s, -, rfl⟩ := hb; simp

theorem nmdcMyinfo_closes : (nmdcMyinfo H cmd).ClosesIff False := by
  intro h r hb
  simp only [nmdcMyinfo, Option.bind_eq_bind] at hb
  split at hb
  · cases hb; simp
  · simp only [Option.bind_eq_some, Option.some.injEq] at hb
    obtain ⟨u, -, rfl⟩ := hb; simp

theorem nmdcHubName_closes : (nmdcHubName H cmd).ClosesIff False := by
  intro h r hb; simp only [nmdcHubName] at hb; split at hb <;> cases hb <;> simp

theorem nmdcForceMove_closes :
    (nmdcForceMove cmd).ClosesIff (matchForceMove cmd).isSome := by
  intro h r hb; simp only [nmdcForceMove] at hb; split at hb <;> cases hb <;> simp_all

theorem nmdcConnectToMe_closes : (nmdcConnectToMe cmd).ClosesIff False := by
  intro h r hb
  simp only [nmdcConnectToMe, Option.bind_eq_bind] at hb
  split at hb
  · cases hb; simp
  · simp only [Option.bind_eq_some, Option.some.injEq] at hb
    obtain ⟨own, -, rfl⟩ := hb; split_ifs <;> simp

theorem nmdcRevConnectToMe_closes : (nmdcRevConnectToMe conf cmd).ClosesIff False := by
  intro h r hb
  simp only [nmdcRevConnectToMe, Option.bind_eq_bind] at hb
  split at hb
  · cases hb; simp
  · simp only [Option.bind_eq_some, Option.some.injEq] at hb
    obtain ⟨own, -, rfl⟩ := hb; split <;> simp

theorem nmdcSearch_closes : (nmdcSearch cmd).ClosesIff False := by
  intro h r hb; simp only [nmdcSearch] at hb; split at hb <;> cases hb <;> simp

theorem nmdcGetPass_closes : (nmdcGetPass conf cmd).ClosesIff False := by
  intro h r hb; simp only [nmdcGetPass] at hb; split_ifs at hb
  · split at hb <;> cases hb <;> simp
  · cases hb; simp

theorem nmdcFatalPrefix_closes (p : List Char) (recon : Bool) :
    (nmdcFatalPrefix cmd p recon).ClosesIff (p.isPrefixOf cmd) := by
  intro h r hb; simp only [nmdcFatalPrefix] at hb; split_ifs at hb <;> cases hb <;> simp_all

end Branches

/-- The NMDC frames that end the connection: a `$ForceMove` with an address, and the
`$BadPass`, `$ValidateDenide` and `$HubIsFull` prefixes. -/
def nmdcFatal (cmd : List Char) : Prop :=
  (matchForceMove cmd).isSome ∨ "$BadPass".toList.isPrefixOf cmd ∨
    "$ValidateDenide".toList.isPrefixOf cmd ∨ "$HubIsFull".toList.isPrefixOf cmd

theorem nmdcHandle_closes (H : Helpers) (conf : Conf) (h : Hub) (cmd : List Char)
    (r : Hub × List HubOut) (hr : nmdcHandle H conf h cmd = some r) :
    HubOut.disconnect ∈ r.2 ↔ nmdcFatal cmd := by
  let l : List (Branch × Prop) :=
    [(nmdcLock H conf cmd, False), (nmdcSupports cmd, False), (nmdcHello H conf cmd, False),
      (nmdcQuit cmd, False), (nmdcNickList H cmd, False), (nmdcOpList H cmd, False),
      (nmdcMyinfo H cmd, False), (nmdcHubName H cmd, False),
      (nmdcForceMove cmd, (matchForceMove cmd).isSome), (nmdcConnectToMe cmd, False),
      (nmdcRevConnectToMe conf cmd, False), (nmdcSearch cmd, False),
      (nmdcGetPass conf cmd, False),
      (nmdcFatalPrefix cmd "$BadPass".toList false, "$BadPass".toList.isPrefixOf cmd),
      (nmdcFatalPrefix cmd "$ValidateDenide".toList true,
        "$ValidateDenide".toList.isPrefixOf cmd),
      (nmdcFatalPrefix cmd "$HubIsFull".toList true, "$HubIsFull".toList.isPrefixOf cmd)]
  have hl : ∀ p ∈ l, p.1.ClosesIff p.2 := by
    simp only [l, List.mem_cons, List.mem_singleton, List.not_mem_nil, or_false]
    rintro p (rfl | rfl | rfl | rfl | rfl | rfl | rfl | rfl | rfl | rfl | rfl | rfl | rfl |
      rfl | rfl | rfl)
    exacts [nmdcLock_closes H conf cmd, nmdcSupports_closes cmd, nmdcHello_closes H conf cmd,
      nmdcQuit_closes cmd, nmdcNickList_closes H cmd, nmdcOpList_closes H cmd,
      nmdcMyinfo_closes H cmd, nmdcHubName_closes H cmd, nmdcForceMove_closes cmd,
      nmdcConnectToMe_closes cmd, nmdcRevConnectToMe_closes conf cmd, nmdcSearch_closes cmd,
      nmdcGetPass_closes conf cmd, nmdcFatalPrefix_closes cmd _ _,
      nmdcFatalPrefix_closes cmd _ _, nmdcFatalPrefix_closes cmd _ _]
  rw [foldlM_runBranch_closes l hl (h, []) r hr]
  simp only [l, List.mem_cons, List.not_mem_nil, or_false, exists_eq_or_imp, exists_eq_left,
    false_or, nmdcFatal]

/-! ### The own nick before `$Lock` -/

theorem foldlM_runBranch_fault (pre : List Branch) {post : List Branch} {b : Branch} {h : Hub}
    (hpre : ∀ b' ∈ pre, b' h = some (h, [])) (hb : b h = none) (o : List HubOut) :
    (pre ++ b :: post).foldlM runBranch (h, o) = none := by
  induction pre with
  | nil => simp [runBranch, hb]
  | cons b' pre ih =>
      simp only [List.mem_cons, forall_eq_or_imp] at hpre
      have hs : runBranch (h, o) b' = some (h, o) := by simp [runBranch, hpre.1]
      rw [List.cons_append, List.foldlM_cons, hs]
      exact ih hpre.2

theorem opListName_unset (H : Helpers) (h : Hub) (n : List Char) (hn : h.nickHub = none) :
    opListName H h n = none := by
  simp only [opListName, Option.bind_eq_bind]
  cases (userAdd H h n).1.heap (userAdd H h n).2 <;> simp [ownNick, hn]

/-- The frames whose handling compares a name with the own nick: a `$Hello`, an `$OpList`
naming someone, a `$ConnectToMe` and a `$RevConnectToMe`. -/
def readsOwnNick (cmd : List Char) : Prop :=
  (matchHello cmd).isSome ∨ (∃ s, matchOpList cmd = some s ∧ nickNames s ≠ []) ∨
    (matchConnectToMe cmd).isSome ∨ (matchRevConnectToMe cmd).isSome

/-- With the own nick unset, each of these frames reaches its `strcmp` with `NULL`: the
branches before it are regexes that cannot match the frame's command word. -/
theorem nmdc_unset_nick_undefined (H : Helpers) (conf : Conf) (h : Hub) (cmd : List Char)
    (hn : h.nickHub = none) (hc : readsOwnNick cmd) : nmdcHandle H conf h cmd = none := by
  have hnone : ∀ x, ownNick h x = none := by simp [ownNick, hn]
  rcases hc with hm | ⟨s, hm, hs⟩ | hm | hm
  · obtain ⟨t, rfl⟩ := eq_append_of_literal_bind hm
    obtain ⟨nick, hmatch⟩ := Option.isSome_iff_exists.1 hm
    refine foldlM_runBranch_fault [nmdcLock H conf _, nmdcSupports _] ?_
      (by simp only [nmdcHello, hmatch, hnone, Option.bind_eq_bind, Option.none_bind]) []
    simp only [List.mem_cons, List.mem_singleton, List.not_mem_nil, or_false]
    rintro b (rfl | rfl) <;> rfl
  · obtain ⟨t, rfl⟩ := eq_append_of_literal_bind (Option.isSome_iff_exists.2 ⟨s, hm⟩)
    obtain ⟨n, ns, hns⟩ := List.exists_cons_of_ne_nil hs
    refine foldlM_runBranch_fault [nmdcLock H conf _, nmdcSupports _,
        nmdcHello H conf _, nmdcQuit _, nmdcNickList H _] ?_
      (by simp only [nmdcOpList, hm, hns, List.foldlM_cons, Option.bind_eq_bind,
        opListName_unset H { h with isop := false } n hn, Option.none_bind]) []
    simp only [List.mem_cons, List.mem_singleton, List.not_mem_nil, or_false]
    rintro b (rfl | rfl | rfl | rfl | rfl) <;> rfl
  · obtain ⟨t, rfl⟩ := eq_append_of_literal_bind hm
    obtain ⟨⟨me, addr⟩, hmatch⟩ := Option.isSome_iff_exists.1 hm
    refine foldlM_runBranch_fault [nmdcLock H conf _, nmdcSupports _,
        nmdcHello H conf _, nmdcQuit _, nmdcNickList H _, nmdcOpList H _, nmdcMyinfo H _,
        nmdcHubName H _, nmdcForceMove _] ?_
      (by simp only [nmdcConnectToMe, hmatch, hnone, Option.bind_eq_bind, Option.none_bind]) []
    simp only [List.mem_cons, List.mem_singleton, List.not_mem_nil, or_false]
    rintro b (rfl | rfl | rfl | rfl | rfl | rfl | rfl | rfl | rfl) <;> rfl
  · obtain ⟨t, rfl⟩ := eq_append_of_literal_bind hm
    obtain ⟨⟨other, me⟩, hmatch⟩ := Option.isSome_iff_exists.1 hm
    refine foldlM_runBranch_fault [nmdcLock H conf _, nmdcSupports _,
        nmdcHello H conf _, nmdcQuit _, nmdcNickList H _, nmdcOpList H _, nmdcMyinfo H _,
        nmdcHubName H _, nmdcForceMove _, nmdcConnectToMe _] ?_
      (by simp only [nmdcRevConnectToMe, hmatch, hnone, Option.bind_eq_bind,
        Option.none_bind]) []
    simp only [List.mem_cons, List.mem_singleton, List.not_mem_nil, or_false]
    rintro b (rfl | rfl | rfl | rfl | rfl | rfl | rfl | rfl | rfl | rfl) <;> rfl

/-- A hub that has not seen `$Lock` yet and receives `$Hello bob`. -/
theorem fresh_hub_hello_undefined :
    hubCreate.nickHub = none ∧ readsOwnNick "$Hello bob".toList ∧
      nmdcHandle Helpers.plain Conf.plain hubCreate "$Hello bob".toList = none :=
  ⟨rfl, .inl rfl, nmdc_unset_nick_undefined _ _ _ _ rfl (.inl rfl)⟩

/-! ### ADC -/

/-- An `IQUI` naming the hub's own session id. -/
def quiOwn (H : Helpers) (h : Hub) (c : AdcCmd) : Prop :=
  c.cmd = "QUI".toList ∧ c.type = 'I' ∧
    ∃ a rest, c.argv = a :: rest ∧ a.length = 4 ∧ H.adcDfcc a = h.sid

/-- An `STA` that passes the length checks of `adc_handle`, so that its code's severity is
tested. -/
def staChecked (c : AdcCmd) : Prop :=
  c.cmd = "STA".toList ∧ ∃ code msg rest, c.argv = code :: msg :: rest ∧ code.length = 3

theorem adcSid_quiet (H : Helpers) (conf : Conf) (h : Hub) (c : AdcCmd) :
    HubOut.disconnect ∉ (adcSid H conf h c).2 := by
  unfold adcSid; split
  · split_ifs
    · exact hubSendNfo_quiet _ _ _
    · simp
  · simp

theorem adcQui_closes {H : Helpers} {h : Hub} {c : AdcCmd} {r : Hub × List HubOut}
    (hr : adcQui H h c = some r) (hd : HubOut.disconnect ∈ r.2) :
    c.type = 'I' ∧ ∃ a rest, c.argv = a :: rest ∧ a.length = 4 ∧ H.adcDfcc a = h.sid := by
  unfold adcQui at hr
  split at hr
  · rename_i a rest hargv
    split_ifs at hr with hbad hsid
    · cases hr; simp at hd
    · push_neg at hbad; exact ⟨hbad.1, a, rest, hargv, hbad.2, hsid⟩
    · split at hr
      · simp only [Option.bind_eq_bind, Option.bind_eq_some, Option.some.injEq] at hr
        obtain ⟨u, -, rfl⟩ := hr; simp at hd
      · cases hr; simp at hd
  · cases hr; simp at hd

theorem adcSta_closes {h : Hub} {c : AdcCmd} (hd : HubOut.disconnect ∈ (adcSta h c).2) :
    ∃ code msg rest, c.argv = code :: msg :: rest ∧ code.length = 3 := by
  unfold adcSta at hd
  split at hd
  · rename_i x b y m rest hargv; exact ⟨[x, b, y], m, rest, hargv, rfl⟩
  · simp at hd

theorem adcHandleCmd_closes {H : Helpers} {conf : Conf} {h : Hub} {c : AdcCmd}
    {r : Hub × List HubOut} (hr : adcHandleCmd H conf h c = some r)
    (hd : HubOut.disconnect ∈ r.2) : quiOwn H h c ∨ staChecked c := by
  unfold adcHandleCmd at hr
  split_ifs at hr with hsid hinf hI hB hqui hsta
  · cases hr; exact absurd hd (adcSid_quiet _ _ _ _)
  · cases hr; simp at hd
  · obtain ⟨h', -, rfl⟩ := Option.map_eq_some'.1 hr; simp at hd
  · cases hr; simp at hd
  · exact .inl ⟨hqui, adcQui_closes hr hd⟩
  · cases hr; exact .inr ⟨hsta, adcSta_closes hd⟩
  · cases hr; simp at hd

theorem adcHandleCmd_quiOwn {H : Helpers} {conf : Conf} {h : Hub} {c : AdcCmd}
    (hq : quiOwn H h c) : adcHandleCmd H conf h c = some (hubDisconnect h true) := by
  obtain ⟨hqui, hI, a, rest, hargv, hlen, hsid⟩ := hq
  simp [adcHandleCmd, adcQui, hqui, hI, hargv, hlen, hsid]

/-! ### Which frames close the connection -/

theorem hub_closes_only_on_fatal (H : Helpers) (conf : Conf) (h : Hub) :
    (∀ cmd r, nmdcHandle H conf h cmd = some r → (HubOut.disconnect ∈ r.2 ↔ nmdcFatal cmd)) ∧
    (∀ msg r, adcHandle H conf h msg = some r → HubOut.disconnect ∈ r.2 →
      ∃ c, H.adcParse msg = some c ∧ (quiOwn H h c ∨ staChecked c)) ∧
    (∀ msg c, msg ≠ [] → H.adcParse msg = some c → quiOwn H h c →
      adcHandle H conf h msg = some (hubDisconnect h true)) := by
  refine ⟨nmdcHandle_closes H conf h, fun msg r hr hd => ?_, fun msg c hm hp hq => ?_⟩
  · unfold adcHandle at hr
    split_ifs at hr
    · cases hr; simp at hd
    · split at hr
      · exact ⟨_, ‹_›, adcHandleCmd_closes hr hd⟩
      · cases hr; simp at hd
  · simp [adcHandle, hm, hp, adcHandleCmd_quiOwn hq]

theorem hub_closes_on_forceMove :
    nmdcHandle Helpers.plain Conf.plain hubCreate "$ForceMove x".toList =
        some (hubDisconnect hubCreate false) ∧
      nmdcFatal "$ForceMove x".toList :=
  ⟨rfl, ((hub_closes_only_on_fatal Helpers.plain Conf.plain hubCreate).1
    "$ForceMove x".toList (hubDisconnect hubCreate false) rfl).1 (by simp)⟩

/-- A `$Lock` whose challenge lacks `EXTENDEDPROTOCOL` leaves the connection open. -/
theorem lock_without_extendedprotocol_stays_open :
    ∃ r, nmdcHandle Helpers.plain Conf.plain hubCreate "$Lock abc Pk=x".toList = some r ∧
      HubOut.disconnect ∉ r.2 :=
  ⟨_, rfl, by decide⟩

end Ncdc
