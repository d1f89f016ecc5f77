import Ncdc.Hub.Session

/-!
`user_adc_nfo` as an update of the user record, one field per two-letter key: a field ends
with the value of the last parameter that stores into it, and `AS` stores into `slots`.
-/

namespace Ncdc

/-! ### The last parameter that stores -/

/-- The value the last parameter of `argv` that `sets` a field gives it, if any. -/
def lastSet {β : Type} (sets : List Char → Option β) (argv : List (List Char)) : Option β :=
  (argv.filterMap sets).getLast?

theorem foldl_getD_eq_lastSet {β : Type} (sets : List Char → Option β) :
    ∀ (argv : List (List Char)) (s : β),
      argv.foldl (fun s a => (sets a).getD s) s = (lastSet sets argv).getD s
  | [], _ => rfl
  | a :: l, s => by
      rw [List.foldl_cons, foldl_getD_eq_lastSet sets l]
      unfold lastSet
      cases h : sets a <;> simp [List.filterMap_cons, h, List.getLast?_cons]

/-! ### The fields -/

/-- The slots a parameter of `user_adc_nfo` stores: those of `SL`, and those of `AS`. -/
def slotsParam : List Char → Option Nat
  | 'S' :: 'L' :: v => some (toUChar (strtol v))
  | 'A' :: 'S' :: v => some (toUChar (strtol v))
  | _ => none

/-- The keys `user_adc_nfo` stores into a field of the record, `NI` apart. -/
def adcFieldKeys : List (Char × Char) :=
  [('D', 'E'), ('V', 'E'), ('E', 'M'), ('I', 'D'), ('S', 'S'), ('H', 'N'), ('H', 'R'),
    ('H', 'O'), ('S', 'L'), ('A', 'S'), ('S', 'U'), ('C', 'T')]

/-- A parameter with a key `user_adc_nfo` recognises: `NI` or one of `adcFieldKeys`. -/
def AdcRecognised (arg : List Char) : Prop :=
  ∃ a b v, arg = a :: b :: v ∧ ((a, b) = ('N', 'I') ∨ (a, b) ∈ adcFieldKeys)

theorem adcField_ID (H : Helpers) (u : HubUser) (v : List Char) :
    adcField H u 'I' 'D' v = if v.length = 39 then { u with cid := H.base32Decode v } else u :=
  rfl

theorem adcField_keys (H : Helpers) (u : HubUser) {a b : Char} (hk : (a, b) ∈ adcFieldKeys)
    (v : List Char) :
    (adcField H u a b v).slots = (slotsParam (a :: b :: v)).getD u.slots ∧
      (adcField H u a b v).as = u.as ∧ (adcField H u a b v).name = u.name := by
  simp only [adcFieldKeys, List.mem_cons, Prod.mk.injEq, List.mem_singleton,
    List.not_mem_nil, or_false] at hk
  rcases hk with ⟨rfl, rfl⟩ | ⟨rfl, rfl⟩ | ⟨rfl, rfl⟩ | ⟨rfl, rfl⟩ | ⟨rfl, rfl⟩ | ⟨rfl, rfl⟩ |
    ⟨rfl, rfl⟩ | ⟨rfl, rfl⟩ | ⟨rfl, rfl⟩ | ⟨rfl, rfl⟩ | ⟨rfl, rfl⟩ | ⟨rfl, rfl⟩
  all_goals first | (rw [adcField_ID]; split <;> exact ⟨rfl, rfl, rfl⟩) | exact ⟨rfl, rfl, rfl⟩

theorem adcNfoArg_field (H : Helpers) (p : Nat) (h : Hub) {a b : Char}
    (hk : (a, b) ∈ adcFieldKeys) (v : List Char) :
    adcNfoArg H p h (a :: b :: v) =
      (h.heap p).bind fun u => some (h.setUser p (adcField H u a b v)) := by
  simp only [adcFieldKeys, List.mem_cons, Prod.mk.injEq, List.mem_singleton,
    List.not_mem_nil, or_false] at hk
  rcases hk with ⟨rfl, rfl⟩ | ⟨rfl, rfl⟩ | ⟨rfl, rfl⟩ | ⟨rfl, rfl⟩ | ⟨rfl, rfl⟩ | ⟨rfl, rfl⟩ |
    ⟨rfl, rfl⟩ | ⟨rfl, rfl⟩ | ⟨rfl, rfl⟩ | ⟨rfl, rfl⟩ | ⟨rfl, rfl⟩ | ⟨rfl, rfl⟩ <;> rfl

/-! ### Re-keying -/

/-- Every key of `hub->users` that holds `p` is the name of the record at `p`. -/
def KeyedAt (h : Hub) (p : Nat) : Prop :=
  ∀ k u, h.users.lookup k = some p → h.heap p = some u → u.name = k

theorem Hub.usersInsert_users (h : Hub) (k : List Char) (p : Nat) :
    (h.usersInsert k p).users = tableInsert h.users k p := by
  unfold Hub.usersInsert; split <;> rfl

theorem Hub.usersInsert_heap (h : Hub) (k : List Char) (p q : Nat)
    (hq : h.users.lookup k ≠ some q) : (h.usersInsert k p).heap q = h.heap q := by
  unfold Hub.usersInsert
  split
  · rename_i r hr
    exact Function.update_noteq (fun e => hq (hr.trans (congrArg some e.symm))) _ _
  · rfl

theorem KeyedAt.setUser {h : Hub} {p : Nat} {u u' : HubUser} (hk : KeyedAt h p)
    (hu : h.heap p = some u) (hn : u'.name = u.name) : KeyedAt (h.setUser p u') p := by
  intro k w hl hw
  simp only [Hub.setUser, Function.update_same, Option.some.injEq] at hw
  exact hw ▸ hn.trans (hk k u hl hu)

theorem adcNfoArg_NI (H : Helpers) (p : Nat) (h : Hub) (v : List Char) :
    adcNfoArg H p h ('N' :: 'I' :: v) = (h.heap p).bind fun u =>
      some (((h.usersSteal u.name).setUser p { u with name := v }).usersInsert v p) :=
  rfl

theorem KeyedAt.rename {h : Hub} {p : Nat} {u : HubUser} (hk : KeyedAt h p)
    (hu : h.heap p = some u) (v : List Char) :
    (((h.usersSteal u.name).setUser p { u with name := v }).usersInsert v p).heap p =
        some { u with name := v } ∧
      KeyedAt (((h.usersSteal u.name).setUser p { u with name := v }).usersInsert v p) p := by
  have hheap : (((h.usersSteal u.name).setUser p { u with name := v }).usersInsert v p).heap p =
      some { u with name := v } := by
    rw [Hub.usersInsert_heap]
    · exact Function.update_same _ _ _
    · change (tableErase h.users u.name).lookup v ≠ some p
      rw [lookup_tableErase]
      split
      · exact Option.noConfusion
      · rename_i hv
        exact fun hl => hv (hk v u hl hu).symm
  refine ⟨hheap, fun k w hl hw => ?_⟩
  rw [hheap, Option.some.injEq] at hw
  subst hw
  rw [Hub.usersInsert_users, lookup_tableInsert] at hl
  split at hl
  · exact (by assumption : k = v).symm
  · change (tableErase h.users u.name).lookup k = some p at hl
    rw [lookup_tableErase] at hl
    split at hl
    · cases hl
    · rename_i hne; exact absurd (hk k u hl hu).symm hne

/-! ### The loop -/

theorem adcNfoArg_step (H : Helpers) {p : Nat} {h : Hub} {u : HubUser} (hk : KeyedAt h p)
    (hu : h.heap p = some u) {arg : List Char} (ha : AdcRecognised arg) :
    ∃ h' u', adcNfoArg H p h arg = some h' ∧ KeyedAt h' p ∧ h'.heap p = some u' ∧
      u'.slots = (slotsParam arg).getD u.slots ∧ u'.as = u.as := by
  obtain ⟨a, b, v, rfl, hni | hf⟩ := ha
  · obtain ⟨rfl, rfl⟩ := Prod.mk.inj hni
    obtain ⟨hp, hk'⟩ := hk.rename hu v
    exact ⟨_, _, by rw [adcNfoArg_NI, hu]; rfl, hk', hp, rfl, rfl⟩
  · obtain ⟨hs, has, hn⟩ := adcField_keys H u hf v
    exact ⟨_, _, by rw [adcNfoArg_field H p h hf, hu]; rfl, hk.setUser hu hn,
      Function.update_same _ _ _, hs, has⟩

theorem foldlM_adcNfoArg (H : Helpers) (p : Nat) :
    ∀ (argv : List (List Char)) (h : Hub) (u : HubUser), KeyedAt h p → h.heap p = some u →
      (∀ arg ∈ argv, AdcRecognised arg) →
      ∃ h' u', argv.foldlM (adcNfoArg H p) h = some h' ∧ h'.heap p = some u' ∧
        u'.slots = argv.foldl (fun s a => (slotsParam a).getD s) u.slots ∧ u'.as = u.as
  | [], h, u, _, hu, _ => ⟨h, u, rfl, hu, rfl, rfl⟩
  | arg :: l, h, u, hk, hu, ha => by
      obtain ⟨h₁, u₁, h1, hk₁, hu₁, hs₁, has₁⟩ :=
        adcNfoArg_step H hk hu (ha arg (List.mem_cons_self _ _))
      obtain ⟨h', u', hf, hu', hs, has⟩ :=
        foldlM_adcNfoArg H p l h₁ u₁ hk₁ hu₁ fun a m => ha a (List.mem_cons_of_mem _ m)
      refine ⟨h', u', by rw [List.foldlM_cons, h1]; exact hf, hu', ?_, has.trans has₁⟩
      rw [hs, hs₁, List.foldl_cons]

/-- `user_adc_nfo` over any list of recognised parameters, in any order and with any
repetitions, on a record keyed by its name: the record's `slots` end as those of the last
`SL` or `AS`, and its `as` keeps its prior value. -/
theorem binf_as_overwrites_slots (H : Helpers) {h : Hub} {p : Nat} {u : HubUser}
    (hu : h.heap p = some u) (hk : KeyedAt h p) (c : AdcCmd)
    (hc : ∀ arg ∈ c.argv, AdcRecognised arg) :
    ∃ h' u', userAdcNfo H h p c = some h' ∧ h'.heap p = some u' ∧
      u'.slots = (lastSet slotsParam c.argv).getD u.slots ∧ u'.as = u.as := by
  let h₀ := if u.sid = 0 then h.sessionsInsert c.source p else h
  have hk₀ : KeyedAt h₀ p := by dsimp only [h₀]; split <;> exact hk
  have hu₀ : h₀.heap p = some u := by dsimp only [h₀]; split <;> exact hu
  obtain ⟨h', u', hf, hu', hs, has⟩ := foldlM_adcNfoArg H p c.argv _ _
    (hk₀.setUser hu₀ (show ({ u with hasinfo := true, sid := c.source } : HubUser).name = u.name
      from rfl))
    (Function.update_same _ _ _) hc
  refine ⟨h', u', ?_, hu', hs.trans (foldl_getD_eq_lastSet _ _ _), has⟩
  simp only [userAdcNfo, hu, Option.bind_eq_bind, Option.some_bind]
  exact hf

/-- An ADC hub where `bob` is keyed by his name, with no slots and no `as` yet. -/
def adcBobHub : Hub :=
  { hubCreate with
    adc := true
    users := [("bob".toList, 0)]
    heap := fun q => if q = 0 then some { HubUser.empty with name := "bob".toList } else none
    next := 1 }

theorem adcBobHub_keyed : KeyedAt adcBobHub 0 := by
  intro k u hl hw
  change some { HubUser.empty with name := "bob".toList } = some u at hw
  change List.lookup k [("bob".toList, 0)] = some 0 at hl
  by_cases hb : k = "bob".toList
  · subst hb; cases hw; rfl
  · rw [lookup_cons_of_ne _ _ hb] at hl; cases hl

/-- A `BINF` with `AS5` gives `bob` five slots and leaves his `as` at zero. -/
theorem as_param_sets_slots :
    adcBobHub.heap 0 = some { HubUser.empty with name := "bob".toList } ∧
      KeyedAt adcBobHub 0 ∧ (∀ arg ∈ ["AS5".toList], AdcRecognised arg) ∧
      ∃ h' u', userAdcNfo Helpers.plain adcBobHub 0 ⟨'B', "INF".toList, 7, ["AS5".toList]⟩ =
        some h' ∧ h'.heap 0 = some u' ∧ u'.slots = 5 ∧ u'.as = 0 := by
  have hc : ∀ arg ∈ ["AS5".toList], AdcRecognised arg := by
    intro arg ha
    rw [List.mem_singleton] at ha
    exact ⟨'A', 'S', "5".toList, ha, Or.inr (by decide)⟩
  obtain ⟨h', u', hr, hu, hs, has⟩ :=
    binf_as_overwrites_slots Helpers.plain rfl adcBobHub_keyed ⟨'B', "INF".toList, 7, _⟩ hc
  exact ⟨rfl, adcBobHub_keyed, hc, h', u', hr, hu, hs.trans (by decide), has⟩

end Ncdc
